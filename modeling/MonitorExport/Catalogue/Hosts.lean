import MonitorExport.Catalogue.Address
import MonitorExport.Catalogue.Preparation

/-!
Hosts and templates, and their interfaces and macros.
-/

namespace MonitorExport.Catalogue

/-- A set of items that hosts can share. -/
def template : ModelDecl where
  name := "Template"
  tag := some "template"
  positional := some "name"
  hostScope := some true
  preparation := some (Preparation.fillFrom "name" "template")
  fields := [
    ("name", Field.plain),
    ("template", Field.plain),
    ("groups", Field.set "Group"),
    ("applications", Field.set "Application"),
    ("items", Field.set "Item"),
    ("discovery_rules", Field.set "DiscoveryRule"),
    ("macros", (Field.set "Macro").allowingEmpty),
    ("screens", Field.set "Screen"),
    ("graphs", Field.set "Graph"),
    ("triggers", Field.set "Trigger")]

/-- A monitored host. -/
def host : ModelDecl where
  name := "Host"
  tag := some "host"
  positional := some "name"
  hostScope := some true
  preparation := some (Preparation.fillFrom "name" "host")
  fields := [
    ("host", Field.plain.describedAs "Host name"),
    ("name", Field.plain.describedAs "Visible host name"),
    ("proxy", (Field.words "").describedAs "Proxy name"),
    ("status", (Field.choice 0 [(0, "monitored"), (1, "unmonitored")]).describedAs "Host status"),
    ("ipmi_authtype", (Field.integer (-1)).describedAs "IPMI authentication type"),
    ("ipmi_privilege", (Field.integer 2).describedAs "IPMI privilege"),
    ("ipmi_username", (Field.words "").describedAs "IPMI username"),
    ("ipmi_password", (Field.words "").describedAs "IPMI password"),
    ("templates", (Field.set "Template").allowingEmpty),
    ("groups", Field.set "Group"),
    ("interfaces", Field.set "Interface"),
    ("applications", Field.set "Application"),
    ("items", (Field.set "Item").allowingEmpty),
    ("discovery_rules", (Field.set "DiscoveryRule").allowingEmpty),
    ("description", Field.plain),
    ("graphs", Field.set "Graph"),
    ("triggers", Field.set "Trigger"),
    ("screens", Field.set "Screen"),
    ("macros", (Field.set "Macro").allowingEmpty),
    ("inventory", Field.words "")]

/-- An address at which a host is asked. -/
def interface : ModelDecl where
  name := "Interface"
  tag := some "interface"
  positional := some "ident"
  preparation := some Address.expand
  fields := [
    ("ip", Field.plain.describedAs "IP address, can be either IPv4 or IPv6"),
    ("dns", (Field.words "").describedAs "DNS name"),
    ("port", Field.plain.describedAs "Port number"),
    ("type", (Field.choice 1 [
      (1, "agent"), (2, "SNMP"), (3, "IPMI"), (4, "JMX")]).describedAs "Interface type"),
    ("useip", (Field.choice 0 [
      (0, "connect to the host using DNS name"), (1, "connect to the host using IP address")]).describedAs
      "How to connect to the host"),
    ("default", (Field.choice 0 [
      (0, "Not default interface"), (1, "Default interface")]).describedAs "Interface status"),
    ("interface_ref", (Field.words "if1").describedAs
      "Interface reference name to be used in items")]

/-- A named text, equal to others of its name. -/
def namedText : ModelDecl where
  name := "Macro"
  tag := some "macro"
  identity := some ["macro"]
  fields := [
    ("macro", Field.plain),
    ("value", Field.plain)]

end MonitorExport.Catalogue
