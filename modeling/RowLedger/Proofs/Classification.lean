import Mathlib.Data.List.Infix
import RowLedger.Conflict
import RowLedger.DriverError

/-!
# What is taken for a conflict

A conflict is known by its class, and its text is looked at only where there is
no class. Both ways agree on what the ledger itself prints: every conflict is
printed with its state code behind the word `SQLSTATE`, all other messages put
their own words around the message of what they report, and a text in which a
tagged code occurs reads as a conflict whatever is around it (`Tagged`). So a
conflict that has been printed, however often it was wrapped up before, is
still recognised by somebody who has nothing but the text.

For what a driver reports it is the state code that decides, as long as the
code has a class. A code without a class is passed on as a bare text, like an
error that has no code at all, and then the words of the database decide. They
decide alone: the words that the driver puts before them are such that none of
the phrases that are looked for can begin in them (`Apart`).

## Main definitions

* `Tagged`: A text with a tagged state code in it.
* `StoreFault.Reported`: The conflicts, by who reports them.
* `Failure.exhausted`: A failure that used up the tries of some callers.
* `Apart`: Nothing that is looked for begins in a text.
* `DriverError.code?`, `DriverError.told`: What an error of a driver carries.

## Theorems

* `readsAsConflict_of_tagged`: A tagged code is recognised.
* `tagged_message`, `tagged_exhausted`: Conflicts are printed with their code.
* `printed_conflict_recognised`: What has been printed is recognised.
* `infix_append_iff`: What begins in no lead occurs behind it.
* `readsAsConflict_message`: Only the words of the database are judged.
* `driver_conflict_iff`: Which errors of a driver are conflicts.
-/

namespace RowLedger

section Recognised

/-- Somewhere in the text there is a tagged state code of a conflict. -/
def Tagged (text : String) : Prop :=
  ∃ code, (code = deadlockCode ∨ code = serializationCode) ∧
    ("SQLSTATE " ++ code).toList <:+: text.toList

/-- More words around a tagged code do no harm. -/
theorem Tagged.surround {text : String} (h : Tagged text) (before after : String) :
    Tagged (before ++ text ++ after) := by
  rcases h with ⟨code, hcode, hinfix⟩
  refine ⟨code, hcode, hinfix.trans ?_⟩
  rw [String.toList_append, String.toList_append]
  exact List.infix_append _ _ _

theorem Tagged.behind {text : String} (h : Tagged text) (before : String) :
    Tagged (before ++ text) := by
  have := h.surround before ""
  rwa [String.append_empty] at this

/-- A tagged code is recognised. -/
theorem readsAsConflict_of_tagged {text : String} (h : Tagged text) :
    readsAsConflict text = true := by
  rcases h with ⟨code, hcode, hinfix⟩
  have hoccurs := (occursIn_iff _ _).2 hinfix
  simp only [readsAsConflict, Bool.or_eq_true]
  rcases hcode with rfl | rfl
  · exact Or.inl (Or.inl (Or.inl hoccurs))
  · exact Or.inl (Or.inl (Or.inr hoccurs))

end Recognised

/-- A fault that is a conflict, by who reports it: the store, or a driver. -/
inductive StoreFault.Reported : StoreFault → Prop where
  | deadlock (text : String) : Reported (.deadlock text)
  | serialization (text : String) : Reported (.serialization text)
  | driver (e : DriverError) (hconflict : e.toStoreFault.isConflict = true) :
      Reported e.toStoreFault

/-- A failure that used up the tries of some callers, one around the other. The outermost comes
first. -/
def Failure.exhausted (attempts : List Nat) (last : Failure) : Failure :=
  attempts.foldr .retriesExhausted last

theorem Failure.exhausted_nil (last : Failure) : last.exhausted [] = last := rfl

section Printed

/-- What a driver reports is a conflict by one of two codes. -/
theorem DriverError.eq_conflict {e : DriverError} (h : e.toStoreFault.isConflict = true) :
    ∃ code text, (code = deadlockCode ∨ code = serializationCode) ∧
      e.toStoreFault = .conflict code text := by
  cases e with
  | database code text =>
      cases code with
      | none => simp [toStoreFault, StoreFault.isConflict] at h
      | some code =>
          by_cases hcode : code = deadlockCode ∨ code = serializationCode
          · exact ⟨code, text, hcode, by rw [toStoreFault, if_pos hcode]⟩
          · rw [toStoreFault, if_neg hcode] at h
            split at h
            · simp [StoreFault.isConflict] at h
            · split at h
              · simp [StoreFault.isConflict] at h
              · simp [StoreFault.isConflict] at h
  | _ => simp [toStoreFault, StoreFault.isConflict] at h

theorem StoreFault.Reported.eq_conflict {fault : StoreFault} (h : fault.Reported) :
    ∃ code text, (code = deadlockCode ∨ code = serializationCode) ∧
      fault = .conflict code text := by
  cases h with
  | deadlock text => exact ⟨_, text, Or.inl rfl, rfl⟩
  | serialization text => exact ⟨_, text, Or.inr rfl, rfl⟩
  | driver e hconflict => exact e.eq_conflict hconflict

variable {fault : StoreFault} (h : fault.Reported)
include h

/-- A conflict stays one for those who call the store. -/
theorem ofStoreFault_of_reported : Failure.ofStoreFault fault = .conflict fault := by
  rcases h.eq_conflict with ⟨code, text, _, rfl⟩
  rfl

/-- A conflict is printed with its code. -/
theorem tagged_message : Tagged fault.message := by
  rcases h.eq_conflict with ⟨code, text, hcode, rfl⟩
  refine ⟨code, hcode, (text ++ " (").toList, ")".toList, ?_⟩
  have htag : " (SQLSTATE ".toList = " (".toList ++ "SQLSTATE ".toList := by decide +kernel
  have hprinted : (StoreFault.conflict code text).message =
      text ++ " (SQLSTATE " ++ code ++ ")" := rfl
  simp only [hprinted, String.toList_append, List.append_assoc, htag]

-- The induction is on the wrappings, from the innermost one outwards.
/-- So it is however often the tries were used up. -/
theorem tagged_exhausted (attempts : List Nat) :
    Tagged ((Failure.ofStoreFault fault).exhausted attempts).message := by
  induction attempts with
  | nil =>
      have hprinted : ((Failure.ofStoreFault fault).exhausted []).message =
          "Transaction conflict: " ++ fault.message := by
        rw [Failure.exhausted_nil, ofStoreFault_of_reported h]
        rfl
      rw [hprinted]
      exact (tagged_message h).behind _
  | cons count rest ih =>
      have hprinted : ((Failure.ofStoreFault fault).exhausted (count :: rest)).message =
          s!"Retries exhausted after {count} attempts: " ++
            ((Failure.ofStoreFault fault).exhausted rest).message := rfl
      rw [hprinted]
      exact ih.behind _

end Printed

/-- What has been printed is recognised. A conflict is one by its class, and the text of its
message, of the failure it becomes or of a failure that used up the tries of any number of callers
reads as a conflict, with any words before and after it. A failure with neither a class nor a bare
text is never taken for one, whatever it says. -/
theorem printed_conflict_recognised :
    (∀ fault : StoreFault, fault.Reported →
      (Failure.ofStoreFault fault).isConflict = true ∧
      ∀ (attempts : List Nat) (before after printed : String),
        printed ∈ [fault.message, (Failure.ofStoreFault fault).message,
          ((Failure.ofStoreFault fault).exhausted attempts).message] →
        (Failure.ofStoreFault (.backend (before ++ printed ++ after))).isConflict = true) ∧
    ∀ failure : Failure, failure.isConflict = true →
      (∃ fault, failure = .conflict fault) ∨ ∃ text, failure = .store (.backend text) := by
  refine ⟨fun fault h => ⟨by rw [ofStoreFault_of_reported h]; rfl, ?_⟩, ?_⟩
  · intro attempts before after printed hprinted
    have htagged : Tagged printed := by
      simp only [List.mem_cons, List.not_mem_nil, or_false] at hprinted
      rcases hprinted with rfl | rfl | rfl
      · exact tagged_message h
      · rw [← Failure.exhausted_nil (.ofStoreFault fault)]
        exact tagged_exhausted h []
      · exact tagged_exhausted h attempts
    exact readsAsConflict_of_tagged (htagged.surround before after)
  · intro failure hconflict
    cases failure with
    | conflict fault => exact Or.inl ⟨fault, rfl⟩
    | store fault =>
        cases fault with
        | backend text => exact Or.inr ⟨text, rfl⟩
        | _ => simp [Failure.isConflict] at hconflict
    | _ => simp [Failure.isConflict] at hconflict

/-- A conflict that a driver reports, printed by somebody who has called somebody else. -/
theorem printed_conflict_recognised_nested :
    (DriverError.database (some "40001") "try again").toStoreFault.Reported ∧
    (Failure.ofStoreFault (.backend ("while saving: " ++
      ((Failure.ofStoreFault
        (DriverError.database (some "40001") "try again").toStoreFault).exhausted [4, 6]).message ++
      "; giving up"))).isConflict = true := by
  have hreported : (DriverError.database (some "40001") "try again").toStoreFault.Reported :=
    .driver _ rfl
  exact ⟨hreported, (printed_conflict_recognised.1 _ hreported).2 [4, 6] _ _ _ (by simp)⟩

section Leads

variable {needle lead text : List Char}

/-- What is looked for neither begins in a text nor is all in it. -/
def Apart (needle lead : List Char) : Prop :=
  ∀ tail ∈ lead.tails, tail ≠ [] → ¬ tail <+: needle ∧ ¬ needle <+: tail

instance (needle lead : List Char) : Decidable (Apart needle lead) :=
  inferInstanceAs (Decidable (∀ tail ∈ lead.tails, _))

-- Induction on the lead. An occurrence at its first letter would have all of the lead for a
-- beginning, or would itself be a beginning of the lead.
/-- What does not begin in the lead occurs behind it or not at all. -/
theorem infix_append_iff (h : Apart needle lead) : needle <:+: lead ++ text ↔ needle <:+: text := by
  induction lead with
  | nil => rfl
  | cons c lead ih =>
      have hrest : Apart needle lead := fun tail htail =>
        h tail (by rw [List.tails_cons]; exact List.mem_cons_of_mem _ htail)
      have hfirst : ¬ needle <+: c :: lead ++ text := by
        intro hstart
        rcases h (c :: lead) ((List.mem_tails _ _).2 (List.suffix_refl _)) (List.cons_ne_nil c lead)
          with ⟨hlong, hshort⟩
        rcases List.prefix_or_prefix_of_prefix hstart (List.prefix_append _ _) with hc | hc
        · exact hshort hc
        · exact hlong hc
      rw [List.cons_append, List.infix_cons_iff, ih hrest, or_iff_right]
      exact hfirst

theorem occursIn_append (h : Apart needle lead) :
    occursIn needle (lead ++ text) = occursIn needle text := by
  rw [Bool.eq_iff_iff, occursIn_iff, occursIn_iff, infix_append_iff h]

/-- None of what makes a text read as a conflict begins in these words. -/
def Harmless (lead : String) : Prop :=
  (∀ code ∈ [deadlockCode, serializationCode], Apart ("SQLSTATE " ++ code).toList lead.toList) ∧
    ∀ phrase ∈ ["deadlock detected", "could not serialize access"],
      Apart phrase.toList (lead.toList.map Char.toLower)

instance (lead : String) : Decidable (Harmless lead) := inferInstanceAs (Decidable (_ ∧ _))

/-- Harmless words in front of a text do not change how it reads. -/
theorem readsAsConflict_append {lead : String} (h : Harmless lead) (text : String) :
    readsAsConflict (lead ++ text) = readsAsConflict text := by
  rcases h with ⟨htags, hphrases⟩
  simp only [List.mem_cons, List.not_mem_nil, or_false, forall_eq_or_imp, forall_eq]
    at htags hphrases
  have htext : (lead ++ text).toList = lead.toList ++ text.toList := String.toList_append
  simp only [readsAsConflict, htext, List.map_append, occursIn_append htags.1,
    occursIn_append htags.2, occursIn_append hphrases.1, occursIn_append hphrases.2]

end Leads

namespace DriverError

/-- The state code that an error carries. -/
def code? : DriverError → Option String
  | .database code _ => code
  | _ => none

/-- What an error was told by others. Some errors are told nothing. -/
def told : DriverError → String
  | .database _ text | .protocol text | .columnNotFound text | .configuration text
  | .connection text => text
  | .rowNotFound | .poolTimedOut | .poolClosed | .workerCrashed => ""

/-- Only what an error was told is judged, not the words that the driver adds. -/
theorem readsAsConflict_message (e : DriverError) :
    readsAsConflict e.message = readsAsConflict e.told := by
  cases e with
  | database code text => exact readsAsConflict_append (by decide +kernel) text
  | protocol text => exact readsAsConflict_append (by decide +kernel) text
  | columnNotFound text => exact readsAsConflict_append (by decide +kernel) text
  | configuration text => exact readsAsConflict_append (by decide +kernel) text
  | connection text => exact readsAsConflict_append (by decide +kernel) text
  | rowNotFound => decide +kernel
  | poolTimedOut => decide +kernel
  | poolClosed => decide +kernel
  | workerCrashed => decide +kernel

/-- The state codes that have a class. -/
def classifiedCodes : List String := [deadlockCode, serializationCode, checkCode, rangeCode]

/-- A bare text is judged by what the driver was told. -/
theorem isConflict_of_backend {e : DriverError} (h : e.toStoreFault = .backend e.message) :
    (Failure.ofStoreFault e.toStoreFault).isConflict = readsAsConflict e.told := by
  rw [h, ← readsAsConflict_message]
  rfl

/-- A code without a class is passed on as a bare text. -/
theorem toStoreFault_of_unclassified {code : String} (h : code ∉ classifiedCodes) (text : String) :
    (database (some code) text).toStoreFault = .backend (database (some code) text).message := by
  simp only [classifiedCodes, List.mem_cons, List.not_mem_nil, or_false, not_or] at h
  rcases h with ⟨hdeadlock, hserialization, hcheck, hrange⟩
  rw [toStoreFault, if_neg (by simp [hdeadlock, hserialization]), if_neg hcheck, if_neg hrange]

/-- Which errors of a driver are conflicts. A code with a class decides, whatever the text says;
where there is no code, or one without a class, the text that the driver was told decides. -/
theorem driver_conflict_iff (e : DriverError) :
    (Failure.ofStoreFault e.toStoreFault).isConflict = true ↔
      match e.code? with
      | some code => code = deadlockCode ∨ code = serializationCode ∨
          code ∉ classifiedCodes ∧ readsAsConflict e.told = true
      | none => readsAsConflict e.told = true := by
  cases e with
  | database code text =>
      cases code with
      | none => rw [isConflict_of_backend rfl, code?]
      | some code =>
          simp only [code?]
          by_cases hclass : code ∈ classifiedCodes
          · simp only [classifiedCodes, List.mem_cons, List.not_mem_nil, or_false] at hclass
            rcases hclass with rfl | rfl | rfl | rfl
            · exact iff_of_true rfl (Or.inl rfl)
            · exact iff_of_true rfl (Or.inr (Or.inl rfl))
            · refine iff_of_false (by simp [toStoreFault, Failure.ofStoreFault,
                Failure.isConflict, deadlockCode, serializationCode, checkCode]) ?_
              simp [classifiedCodes, deadlockCode, serializationCode, checkCode]
            · refine iff_of_false (by simp [toStoreFault, Failure.ofStoreFault,
                Failure.isConflict, deadlockCode, serializationCode, checkCode, rangeCode]) ?_
              simp [classifiedCodes, deadlockCode, serializationCode, rangeCode]
          · rw [isConflict_of_backend (toStoreFault_of_unclassified hclass text)]
            have hother := hclass
            simp only [classifiedCodes, List.mem_cons, not_or] at hother
            rw [or_iff_right hother.1, or_iff_right hother.2.1, and_iff_right hclass]
  | _ => exact Bool.eq_iff_iff.1 (isConflict_of_backend rfl)

/-- An error with a code of its own, raised by a rule that somebody wrote into the database, is
taken for a conflict for the words that it was given. -/
theorem code_overruled_by_text :
    (DriverError.database (some "P0001") "memo: deadlock detected").code? = some "P0001" ∧
    ¬ ("P0001" = deadlockCode ∨ "P0001" = serializationCode) ∧
    (Failure.ofStoreFault
      (DriverError.database (some "P0001") "memo: deadlock detected").toStoreFault).isConflict =
        true := by
  refine ⟨rfl, ?_, ?_⟩ <;> decide +kernel

end DriverError

end RowLedger
