import MonitorExport.Catalogue.Aggregate
import MonitorExport.Catalogue.Preparation

/-!
Items, their value maps, and items that aggregate others.
-/

namespace MonitorExport.Catalogue

/-- A named mapping of values to texts. -/
def valueMap : ModelDecl where
  name := "ValueMap"
  tag := some "valuemap"
  positional := some "name"
  fields := [
    ("name", Field.plain)]

/-- What is measured on a host. -/
def item : ModelDecl where
  name := "Item"
  tag := some "item"
  positional := some "name"
  reference := some ⟨"key", "key"⟩
  fields := [
    ("name", Field.plain.describedAs "Item name"),
    ("key", Field.plain.describedAs "Item key"),
    ("description", Field.plain.describedAs "Item description"),
    ("type", (Field.choice 2 [
      (0, "Zabbix agent"), (1, "SNMPv1"), (2, "Trapper"), (3, "Simple check"), (4, "SNMPv2"),
      (5, "Internal"), (6, "SNMPv3"), (7, "Active check"), (8, "Aggregate"),
      (9, "HTTP test (web monitoring scenario step)"), (10, "External"),
      (11, "Database monitor"), (12, "IPMI"), (13, "SSH"), (14, "telnet"), (15, "Calculated"),
      (16, "JMX"), (17, "SNMP trap")]).describedAs "Item type"),
    ("data_type", (Field.choice 0 [
      (0, "decimal"), (1, "octal"), (2, "hexadecimal"), (3, "boolean")]).describedAs
      "Data type of the item"),
    ("delay", (Field.integer 60).describedAs "Check interval"),
    ("history", (Field.integer 7).describedAs "How long to keep item history (days)"),
    ("trends", (Field.integer 365).describedAs "How long to keep item trends (days)"),
    ("status", (Field.choice 0 [
      (0, "enabled item"), (1, "disabled item"), (3, "unsupported item")]).describedAs
      "Item status"),
    ("value_type", (Field.choice 3 [
      (0, "numeric_float"), (1, "character"), (2, "log"), (3, "numeric_unsigned"), (4, "text")]).describedAs
      "Value type"),
    ("units", (Field.words "").describedAs "Value units"),
    ("multiplier", (Field.integer 0).describedAs "Value multiplier"),
    ("delta", (Field.choice 0 [
      (0, "as_is"), (1, "delta_per_second"), (2, "delta_simple")]).describedAs
      "Store values as delta"),
    ("formula", Field.integer 1),
    ("delay_flex", Field.plain.describedAs "Flexible delay"),
    ("trapper_hosts", Field.plain),
    ("snmp_community", Field.plain.describedAs "SNMP community name"),
    ("snmp_oid", Field.plain.describedAs "SNMP OID"),
    ("port", Field.plain.describedAs "Item custom port"),
    ("snmpv3_securityname", Field.plain.describedAs "SNMPv3 security name"),
    ("snmpv3_securitylevel", Field.plain.describedAs "SNMPv3 security level"),
    ("snmpv3_authpassphrase", Field.plain.describedAs "SNMPv3 authentication phrase"),
    ("snmpv3_privpassphrase", Field.plain.describedAs "SNMPv3 private phrase"),
    ("params", Field.plain),
    ("ipmi_sensor", Field.plain.describedAs "IPMI sensor"),
    ("authtype", (Field.choice 0 [
      (0, "password"), (1, "public key")]).describedAs
      "SSH authentication method, used only by SSH agent item prototypes"),
    ("username", Field.plain),
    ("password", Field.plain),
    ("publickey", Field.plain),
    ("privatekey", Field.plain),
    ("interface_ref", Field.plain.describedAs "Reference to host interface"),
    ("inventory_link", (Field.integer 0).describedAs
      "Host inventory field number updated with the value returned by the item"),
    ("applications", Field.set "Application"),
    ("valuemap", ((Field.set "ValueMap").allowingEmpty).describedAs "Value map assigned to item")]

/-- An item computed from an item of all hosts in some groups. -/
def aggregateItem : ModelDecl where
  name := "AggregateItem"
  extends? := some "Item"
  preparation := some Aggregate.buildKey
  fields := []

end MonitorExport.Catalogue
