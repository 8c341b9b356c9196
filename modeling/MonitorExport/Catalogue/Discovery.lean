import MonitorExport.Catalogue.Preparation

/-!
Discovery rules: what is made for each thing found on a host.
-/

namespace MonitorExport.Catalogue

/-- A rule that makes items, triggers, graphs and hosts from prototypes. -/
def discoveryRule : ModelDecl where
  name := "DiscoveryRule"
  tag := some "discovery_rule"
  positional := some "name"
  fields := [
    ("key", Field.plain),
    ("name", Field.plain.describedAs "Visible discovery rule name"),
    ("description", Field.plain),
    ("type", Field.integer 2),
    ("status", Field.choice 0 [(0, "enabled"), (1, "disabled")]),
    ("proxy", Field.plain.describedAs "Proxy name"),
    ("applications", Field.set "Application"),
    ("templates", Field.set "Template"),
    ("groups", Field.set "Group"),
    ("interfaces", Field.set "Interface"),
    ("filter", Field.words ":"),
    ("delay", Field.integer 3600),
    ("delay_flex", Field.plain),
    ("lifetime", Field.integer 30),
    ("item_prototypes", (Field.set "Item").tagged "item_prototype"),
    ("trigger_prototypes", (Field.set "Trigger").tagged "trigger_prototype"),
    ("graph_prototypes", (Field.set "Graph").tagged "graph_prototype"),
    ("allowed_hosts", Field.plain),
    ("ipmi_authtype", Field.plain.describedAs "IPMI authentication type"),
    ("ipmi_password", Field.plain.describedAs "IPMI password"),
    ("ipmi_privilege", Field.plain.describedAs "IPMI privilege"),
    ("ipmi_sensor", Field.plain),
    ("ipmi_username", Field.plain.describedAs "IPMI username"),
    ("snmp_community", Field.plain),
    ("snmp_oid", Field.plain),
    ("snmpv3_contextname", Field.plain),
    ("snmpv3_securityname", Field.plain),
    ("snmpv3_securitylevel", Field.integer 0),
    ("snmpv3_authprotocol", Field.integer 0),
    ("snmpv3_authpassphrase", Field.plain),
    ("snmpv3_privprotocol", Field.integer 0),
    ("snmpv3_privpassphrase", Field.plain),
    ("params", Field.plain),
    ("authtype", (Field.choice 0 [
      (0, "password"), (1, "public key")]).describedAs
      "SSH authentication method, used only by SSH agent item prototypes"),
    ("username", Field.plain),
    ("password", Field.plain),
    ("publickey", Field.plain),
    ("privatekey", Field.plain),
    ("port", Field.plain),
    ("host_prototypes", (Field.set "Host").tagged "host_prototype")]

end MonitorExport.Catalogue
