import RunpodJobrunner.JsonSchema
import RunpodJobrunner.RunState

/-!
# The closeout receipt

`closeout-receipt-1.json` as a schema, and the receipt `commit_state` builds and
validates before it writes anything of a closed state.
-/

namespace RunpodJobrunner

open Regex Schema

/-! ## Patterns -/

/-- `[A-Za-z0-9._-]` -/
def isRunIdChar (c : ℕ) : Bool := isAlnum c || c == 46 || c == 95 || c == 45

/-- `[A-Za-z0-9][A-Za-z0-9._-]{0,127}` -/
def runIdPattern : Regex := .seq (.set isAlnum) (upTo (.set isRunIdChar) 127)

/-- `(?:0|0\.[0-9]+|[1-9][0-9]*(?:\.[0-9]+)?)` -/
def nonnegativeMoneyPattern : Regex :=
  let fraction := Regex.seq (chr 46) (plus (.set isDigit))
  .alt (chr 48) <| .alt (.seq (chr 48) fraction) <|
    .seq (.set fun c => isDigit c && c != 48) (.seq (.star (.set isDigit)) (opt fraction))

/-- `^body$` -/
def anchored (body : Regex) : Regex := .seq .bol (.seq body .eol)

/-- `^op-.+` -/
def operationIdPattern : Regex := .seq .bol (.seq (lit (txt "op-")) (plus dot))

/-- The run ids `RunStore.paths` accepts. -/
def isRunId (t : Text) : Bool :=
  !(t == txt "." || t == txt "..") && fullmatch (.seq runIdPattern .eos) t

/-- `RunStore.paths` raises `InvalidRunIdError` on anything else. -/
def RunId : Type := { t : Text // isRunId t = true }

/-! ## The schema -/

/-- A string of at least one character. -/
def nonemptyString : Schema := .allOf [.type [.string], .minLength 1]

/-- An object with exactly the given members, all required. -/
def closedObject (members : List (Text × Schema)) : Schema :=
  .allOf [.type [.object], .required (members.map Prod.fst), .properties members .never]

/-- `$defs/operation` -/
def operationSchema : Schema :=
  .allOf [.type [.object], .required [txt "id", txt "status", txt "attempts"],
    .properties
      [(txt "id", .allOf [.type [.string], .pattern operationIdPattern]),
        (txt "status", nonemptyString),
        (txt "attempts", .allOf [.type [.integer], .minimum 0])]
      .any]

/-- `$defs/artifact-disposition` -/
def artifactDispositionSchema : Schema :=
  .allOf [.type [.object], .required [txt "status", txt "detail"],
    .properties
      [(txt "status", .enum [.str (txt "verified"), .str (txt "partial_recovered"),
          .str (txt "unavailable"), .str (txt "not_applicable")]),
        (txt "detail", .type [.string, .null])]
      .any]

/-- `$defs/provision-resolution` -/
def provisionResolutionSchema : Schema :=
  closedObject
    [(txt "source", .const (.str (txt "termination_deadline_elapsed"))),
      (txt "operation_id", .allOf [.type [.string], .pattern operationIdPattern]),
      (txt "termination_deadline", .type [.string]),
      (txt "absence_first_observed_at", .type [.string]),
      (txt "confirmed_at", .type [.string])]

/-- `properties/closeout/properties/current_spend_scope` -/
def spendScopeSchema : Schema :=
  .anyOf
    [closedObject [(txt "kind", .const (.str (txt "account")))],
      closedObject
        [(txt "kind", .const (.str (txt "resource"))), (txt "resource_id", nonemptyString)],
      closedObject
        [(txt "kind", .const (.str (txt "provision_operation"))),
          (txt "operation_id", nonemptyString),
          (txt "proof", .enum [.str (txt "provision_not_dispatched"),
            .str (txt "termination_deadline_absence")])],
      closedObject
        [(txt "kind", .const (.str (txt "run"))),
          (txt "proof", .const (.str (txt "provision_not_dispatched")))]]

/-- An array of distinct nonempty strings. -/
def resourceIdsSchema : Schema :=
  .allOf [.type [.array], .items nonemptyString, .uniqueItems]

/-- `properties/resource` -/
def resourceSchema : Schema :=
  .allOf [.type [.object, .null], .required [txt "id"],
    .properties [(txt "id", nonemptyString)] .any]

/-- `properties/operations` -/
def operationsSchema : Schema :=
  .allOf [.type [.object],
    .propertyNames (.enum [.str (txt "provision"), .str (txt "start"), .str (txt "delete")]),
    .properties [] operationSchema]

/-- `properties/closeout` -/
def closeoutSchema : Schema :=
  .allOf [.type [.object],
    .required [txt "artifact_disposition", txt "delete_acknowledged", txt "delete_already_absent",
      txt "provider_not_found", txt "current_spend_usd_per_hour"],
    .properties
      [(txt "artifact_disposition", artifactDispositionSchema),
        (txt "delete_acknowledged", .const (.bool true)),
        (txt "delete_already_absent", .type [.boolean]),
        (txt "provider_not_found", .const (.bool true)),
        (txt "current_spend_usd_per_hour", .const (.str (txt "0"))),
        (txt "current_spend_scope", spendScopeSchema),
        (txt "delete_acknowledged_resource_ids", resourceIdsSchema),
        (txt "provision_absence_confirmed", .type [.boolean]),
        (txt "provision_absence_first_observed_at", .type [.string, .null]),
        (txt "provision_resolution", provisionResolutionSchema)]
      .any]

/-- `allOf/0/if`: no resource, and a dispatched create of uncertain outcome. -/
def uncertainProvisionSchema : Schema :=
  .allOf [.required [txt "resource", txt "operations"],
    .properties
      [(txt "resource", .type [.null]),
        (txt "operations",
          .allOf [.required [txt "provision"],
            .properties
              [(txt "provision",
                .allOf [.required [txt "status", txt "attempts"],
                  .properties
                    [(txt "status", .enum [.str (txt "dispatched"), .str (txt "outcome_unknown"),
                        .str (txt "unresolved")]),
                      (txt "attempts", .minimum 1)]
                    .any])]
              .any])]
      .any]

/-- `allOf/0/then`: the resolution is recorded. -/
def resolvedProvisionSchema : Schema :=
  .properties
    [(txt "closeout",
      .allOf [.required [txt "provision_absence_confirmed", txt "provision_resolution"],
        .properties [(txt "provision_absence_confirmed", .const (.bool true))] .any])]
    .any

/-- `closeout-receipt-1.json` -/
def closeoutReceiptSchema : Schema :=
  .allOf [.type [.object],
    .required [txt "protocol", txt "run_id", txt "lifecycle", txt "workload_result",
      txt "approved_max_usd", txt "resource", txt "operations", txt "recovery_reason",
      txt "closeout", txt "event_sequence"],
    .properties
      [(txt "protocol", .const (.str (txt "closeout-receipt/1"))),
        (txt "run_id", .allOf [.type [.string], .pattern (anchored runIdPattern)]),
        (txt "lifecycle", .const (.str (txt "closed"))),
        (txt "workload_result",
          .enum [.str (txt "succeeded"), .str (txt "failed"), .str (txt "cancelled")]),
        (txt "approved_max_usd",
          .allOf [.type [.string], .pattern (anchored nonnegativeMoneyPattern)]),
        (txt "resource", resourceSchema),
        (txt "operations", operationsSchema),
        (txt "recovery_reason", .type [.string, .null]),
        (txt "closeout", closeoutSchema),
        (txt "event_sequence", .allOf [.type [.integer], .minimum 1]),
        (txt "quarantined_resource_ids", resourceIdsSchema)]
      .any,
    .ifThen uncertainProvisionSchema resolvedProvisionSchema]

/-! ## The receipt -/

/-- `receipt["protocol"] = "closeout-receipt/1"` on the projection. -/
def closeoutReceipt (s : RunState) (sequence : ℕ) : List (Text × Json) :=
  Json.setKey (txt "protocol") (.str (txt "closeout-receipt/1")) (s.json sequence)

/-- `_make_closeout_receipt` returns: the receipt is valid under its schema. -/
def receiptAccepted (s : RunState) (sequence : ℕ) : Bool :=
  closeoutReceiptSchema.accepts (.obj (closeoutReceipt s sequence))

end RunpodJobrunner
