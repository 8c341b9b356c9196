import MonitorExport.Export.Rules

/-!
The pruning rules for version 2.0 of the import format.
-/

namespace MonitorExport.PruningRules

/-- The values that the importing server assumes. -/
def standard : PruningRules := ofEntries [
  .scope "host" [
    .rule "ipmi_authtype" (.int (-1)),
    .rule "ipmi_available" (.int 0),
    .rule "ipmi_privilege" (.int 2),
    .rule "ipmi_username" (.text ""),
    .rule "ipmi_password" (.text ""),
    .rule "maintenance_status" (.int 0),
    .rule "snmp_available" (.int 0),
    .rule "status" (.int 0),
    .scope "inventory" [
      .rule "inventory_mode" (.int 0)]],
  .scope "host_prototype" [
    .rule "ipmi_authtype" (.int (-1)),
    .rule "ipmi_available" (.int 0),
    .rule "ipmi_privilege" (.int 2),
    .rule "maintenance_status" (.int 0),
    .rule "snmp_available" (.int 0),
    .rule "status" (.int 0),
    .scope "inventory" [
      .rule "inventory_mode" (.int 0)]],
  .scope "item" [
    .rule "authtype" (.int 0),
    .rule "data_type" (.int 0),
    .rule "delta" (.int 0),
    .rule "formula" (.int 1),
    .rule "history" (.int 7),
    .rule "inventory_link" (.int 0),
    .rule "state" (.int 0),
    .rule "status" (.int 0),
    .rule "trends" (.int 365),
    .rule "units" (.text ""),
    .rule "snmpv3_authprotocol" (.int 0),
    .rule "snmpv3_privprotocol" (.int 0),
    .rule "multiplier" (.int 0)],
  .scope "screen" [
    .rule "vsize" (.int 1)],
  .scope "screen_item" [
    .rule "dynamic" (.int 0),
    .rule "elements" (.int 25),
    .rule "halign" (.int 0),
    .rule "height" (.int 200),
    .rule "sort_triggers" (.int 0),
    .rule "style" (.int 0),
    .rule "valign" (.int 0),
    .rule "width" (.int 320),
    .rule "colspan" (.int 1),
    .rule "rowspan" (.int 1)],
  .scope "action" [
    .rule "recovery_msg" (.int 0),
    .rule "status" (.int 0),
    .scope "condition" [
      .rule "operator" (.int 0)],
    .scope "operation" [
      .rule "esc_period" (.int 0),
      .rule "esc_step_from" (.int 1),
      .rule "esc_step_to" (.int 1),
      .rule "evaltype" (.int 0),
      .rule "operator" (.int 0)],
    .scope "message" [
      .rule "default_msg" (.int 0)]],
  .scope "graph" [
    .rule "type" (.int 0),
    .rule "percent_left" (.float 0.0),
    .rule "percent_right" (.float 0.0),
    .rule "show_3d" (.int 0),
    .rule "show_legend" (.int 1),
    .rule "show_work_period" (.int 1),
    .rule "show_triggers" (.int 1),
    .rule "yaxismax" (.float 100.0),
    .rule "yaxismin" (.float 0.0),
    .rule "ymax_type" (.int 0),
    .rule "ymin_type" (.int 0),
    .rule "ymin_item_1" (.int 0),
    .rule "ymax_item_1" (.int 0)],
  .scope "graph_item" [
    .rule "calc_fnc" (.int 2),
    .rule "drawtype" (.int 0),
    .rule "sortorder" (.int 0),
    .rule "type" (.int 0),
    .rule "yaxisside" (.int 0)],
  .scope "trigger" [
    .rule "priority" (.int 0),
    .rule "state" (.int 0),
    .rule "status" (.int 0),
    .rule "type" (.int 0),
    .rule "value" (.int 0)],
  .scope "discovery_rule" [
    .rule "authtype" (.int 0),
    .rule "lifetime" (.int 30),
    .rule "snmpv3_authprotocol" (.int 0),
    .rule "snmpv3_privprotocol" (.int 0),
    .rule "state" (.int 0),
    .rule "status" (.int 0)]]

end MonitorExport.PruningRules
