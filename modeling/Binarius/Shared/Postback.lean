import Mathlib.Tactic
import Binarius.Shared.Bonus

/-!
# Shared.Postback — the classification of a postback's query (packages/shared/src/postback.ts)

A query is a flat map of strings: its keys are distinct.

* `classifyPostback_deposit`: a deposit names its payment and its trader, and its amount is in the domain of
  the money columns.
-/

namespace Binarius

inductive PostbackSource
  | binodex
  deriving DecidableEq, Repr

inductive PostbackEvent
  | deposit
  | ftd
  deriving DecidableEq, Repr

/-- In the order `classifyPostback` checks them. -/
inductive PostbackRejectReason
  | missingPostbackId
  | unknownEvent
  | missingPaymentId
  | missingTraderId
  | invalidAmount
  deriving DecidableEq, Repr

abbrev PostbackQuery := List (String × List Char)

inductive ClassifiedPostback
  | deposit (postbackId : List Char) (event : PostbackEvent) (paymentId traderId : List Char)
      (amount : DecimalString) (coin : Option (List Char))
  | rejected (reason : PostbackRejectReason) (postbackId : Option (List Char)) (event : Option PostbackEvent)
  deriving DecidableEq, Repr

/-- numericDomainDecimalSchema. -/
def isNumericDomainDecimal (value : List Char) : Bool := isPositiveDecimalString value && fitsNumeric value

/-- An empty value is a macro the cabinet left blank: the same as an absent key. -/
def filled (query : PostbackQuery) (key : String) : Option (List Char) :=
  (query.lookup key).filter (fun value => !value.isEmpty)

def postbackEvent (value : List Char) : Option PostbackEvent :=
  if value = "deposit".toList then some .deposit
  else if value = "ftd".toList then some .ftd
  else none

/-- The refusals are checked in a fixed order, so one query always gets one reason. -/
def classifyPostback (query : PostbackQuery) : ClassifiedPostback :=
  match filled query "id" with
  | none => .rejected .missingPostbackId none none
  | some postbackId =>
    match (filled query "event").bind postbackEvent with
    | none => .rejected .unknownEvent (some postbackId) none
    | some event =>
      match filled query "payment_id" with
      | none => .rejected .missingPaymentId (some postbackId) (some event)
      | some paymentId =>
        match filled query "a" with
        | none => .rejected .missingTraderId (some postbackId) (some event)
        | some traderId =>
          match (filled query "amount").filter isNumericDomainDecimal with
          | none => .rejected .invalidAmount (some postbackId) (some event)
          | some amount => .deposit postbackId event paymentId traderId amount (filled query "coin")

theorem filled_ne_nil {query : PostbackQuery} {key : String} {value : List Char}
    (h : filled query key = some value) : value ≠ [] := by
  unfold filled at h
  obtain ⟨_, hvalue⟩ := Option.filter_eq_some_iff.mp h
  intro hnil
  subst hnil
  simp at hvalue

/-- **What a deposit's classification promises.** -/
theorem classifyPostback_deposit {query : PostbackQuery} {postbackId paymentId traderId : List Char}
    {event : PostbackEvent} {amount : DecimalString} {coin : Option (List Char)}
    (h : classifyPostback query = .deposit postbackId event paymentId traderId amount coin) :
    postbackId ≠ [] ∧ paymentId ≠ [] ∧ traderId ≠ [] ∧ isNumericDomainDecimal amount = true := by
  unfold classifyPostback at h
  split at h
  · exact nomatch h
  rename_i hid
  split at h
  · exact nomatch h
  split at h
  · exact nomatch h
  rename_i hpayment
  split at h
  · exact nomatch h
  rename_i htrader
  split at h
  · exact nomatch h
  rename_i hamount
  simp only [ClassifiedPostback.deposit.injEq] at h
  obtain ⟨rfl, rfl, rfl, rfl, rfl, rfl⟩ := h
  exact ⟨filled_ne_nil hid, filled_ne_nil hpayment, filled_ne_nil htrader,
    (Option.filter_eq_some_iff.mp hamount).2⟩

end Binarius
