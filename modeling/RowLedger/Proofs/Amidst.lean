import RowLedger.Proofs.Cancellation
import RowLedger.Proofs.Walks
import RowLedger.Retry.Fleet

/-!
# Work amidst others

Work inside a transaction that is open already, one step after another, while
others do what they like. They can open transactions and end them, wait, give
up, commit, and put accounts in, at any time and as often as there is room for
it. What they cannot do is to change the record of the transaction: they wake
its call, and that is all. So what the work makes of the record is told by its
own requests alone.

The rules for this are those of any logic for programs. Work that has ended
leads to its outcome, one piece of work after another leads where the second one
leads, and a request leads to one of two things: to the answer it would get if
there were nobody else, or to a refusal, if it is for a new row, that leaves the
record as it was.

## Main definitions

* `Store.OpenAs`: A transaction is open with a record, and no call of it waits.
* `Work.Amidst`: Work goes on while others do what they like.
* `Work.Leads`: Whatever the others do, this is what the work leads to.

## Theorems

* `openAs_other`: Others leave the record alone.
* `amidst_amid`: Others that take turns with the calls are a case of this.
* `amidst_settle`: Work comes to its end before anything else begins.
* `leads_pure`, `leads_fail`, `leads_bind`, `leads_ask`: The rules.
-/

namespace RowLedger

namespace Store

variable {s : Store} {tx : TxId} {t : OpenTx} {r : Request} {e : Event}

/-- A transaction is open with this record, and no call of it waits. -/
structure OpenAs (s : Store) (tx : TxId) (t : OpenTx) : Prop where
  consistent : s.Consistent
  live : s.live.get? tx = some t
  idle : t.blocked = none

/-- A transaction with this record makes a request, and may be waiting for the answer. -/
structure AskingAs (s : Store) (tx : TxId) (t : OpenTx) (r : Request) : Prop where
  consistent : s.Consistent
  live : ∃ t', s.live.get? tx = some t' ∧ t'.idle = t ∧ ∀ w, t'.blocked = some w → w.request = r

theorem OpenAs.asking (h : s.OpenAs tx t) (r : Request) : s.AskingAs tx t r where
  consistent := h.consistent
  live := ⟨t, h.live, OpenTx.idle_of_unblocked h.idle, by simp [h.idle]⟩

/-- Others leave the record alone. -/
theorem openAs_other (h : s.OpenAs tx t) (he : e.tx? ≠ some tx) : (s.step e).2.OpenAs tx t := by
  refine ⟨consistent_step h.consistent e, ?_, h.idle⟩
  rcases live_step_other (h.consistent.live_le tx t h.live) he with hsame | hwoken
  · exact hsame.trans h.live
  · -- There is no call that could be woken.
    have hwake : t.wake = t := by
      rcases t with ⟨held, pending, blocked⟩
      cases h.idle
      rfl
    rw [hwoken, h.live, Option.map_some, hwake]

theorem askingAs_other (h : s.AskingAs tx t r) (he : e.tx? ≠ some tx) :
    (s.step e).2.AskingAs tx t r := by
  rcases h.live with ⟨t', hlive, hidle, hstands⟩
  refine ⟨consistent_step h.consistent e, ?_⟩
  rcases live_step_other (h.consistent.live_le tx t' hlive) he with hsame | hwoken
  · exact ⟨t', hsame.trans hlive, hidle, hstands⟩
  · rw [hlive, Option.map_some] at hwoken
    refine ⟨t'.wake, hwoken, hidle, ?_⟩
    intro w hw
    rw [OpenTx.wake_blocked, Option.map_eq_some_iff] at hw
    rcases hw with ⟨w', hw', rfl⟩
    exact hstands w' hw'

/-- What comes of a request: it waits, or it is answered as if there were nobody else, or it is for
a new row and refused, with nothing changed. -/
theorem ask_askingAs (h : s.AskingAs tx t r) :
    ((s.ask tx r).1 = .waiting ∧ (s.ask tx r).2.AskingAs tx t r) ∨
      ((s.ask tx r).1 = (t.alone s.accounts r).1 ∧
        (s.ask tx r).2.OpenAs tx (t.alone s.accounts r).2) ∨
      (r.row ∉ t.held ∧ (∃ reason, (s.ask tx r).1 = .refused reason) ∧
        (s.ask tx r).2.OpenAs tx t) := by
  rcases h.live with ⟨t', hlive, rfl, hstands⟩
  have hcons := consistent_ask h.consistent tx r
  by_cases hheld : r.row ∈ t'.held
  · -- For a row that is held nobody waits.
    have hidle : t'.blocked = none := by
      rw [← Option.not_isSome_iff_eq_none, Option.isSome_iff_exists]
      rintro ⟨w, hw⟩
      exact h.consistent.blocked_new hlive hw (hstands w hw ▸ hheld)
    have hask : s.ask tx r = ((t'.serve (s.accounts.get? r.row) r).1,
        s.put tx (t'.serve (s.accounts.get? r.row) r).2 s.locks) := by
      rw [ask, (isBlocked_eq_false hlive).2 hidle, if_neg Bool.false_ne_true, request, hlive]
      simp only [if_pos hheld]
    have halone : t'.alone s.accounts r = t'.serve (s.accounts.get? r.row) r := by
      rw [OpenTx.alone, if_pos hheld]
    rw [hask] at hcons ⊢
    rw [OpenTx.idle_of_unblocked hidle, halone]
    refine Or.inr (Or.inl ⟨rfl, hcons, ?_, (OpenTx.serve_blocked ..).trans hidle⟩)
    rw [put_live, if_pos rfl]
  · rcases answered_ask h.consistent hlive hstands with hanswered | ⟨hask, _⟩
    · generalize s.ask tx r = result at hanswered hcons ⊢
      cases hanswered with
      | alone =>
          refine Or.inr (Or.inl ⟨rfl, hcons, ?_, OpenTx.alone_blocked t'.idle r⟩)
          rw [put_live, if_pos rfl]
      | cycle => exact Or.inr (Or.inr ⟨hheld, ⟨_, rfl⟩, hcons, by rw [put_live, if_pos rfl], rfl⟩)
      | waiting =>
          refine Or.inl ⟨rfl, hcons, { t' with blocked := some ⟨r, false⟩ }, ?_, rfl, ?_⟩
          · rw [put_live, if_pos rfl]
          · simp
    · rw [hask] at hcons ⊢
      exact Or.inl ⟨rfl, h⟩

end Store

namespace Work

variable {α β : Type} {tx : TxId} {t : OpenTx}

/-- Work goes on, and between its steps others do what they like. Nothing is known of what they
tell the log and note down. -/
inductive Amidst (tx : TxId) : Work α → Service → Work α → Service → Prop where
  | stays (w : Work α) (s : Service) : Amidst tx w s w s
  | goes {w w' : Work α} {s s' : Service}
      (h : Amidst tx (w.step tx s).1 (w.step tx s).2 w' s') : Amidst tx w s w' s'
  | others {w w' : Work α} {s s₁ s' : Service} {e : Event} (he : e.tx? ≠ some tx)
      (hstore : s₁.store = (s.store.step e).2) (h : Amidst tx w s₁ w' s') : Amidst tx w s w' s'

section Runs

variable {w w' w'' : Work α} {s s' s'' : Service}

theorem amidst_trans (h : Amidst tx w s w' s') (h' : Amidst tx w' s' w'' s'') :
    Amidst tx w s w'' s'' := by
  induction h with
  | stays => exact h'
  | goes _ ih => exact .goes (ih h')
  | others he hstore _ ih => exact .others he hstore (ih h')

/-- Any number of events of others is a part of such a run. -/
theorem amidst_happen {events : List Event} (hothers : ∀ e ∈ events, e.tx? ≠ some tx)
    (h : Amidst tx w (s.happen events) w' s') : Amidst tx w s w' s' := by
  induction events generalizing s with
  | nil => exact h
  | cons e rest ih =>
      have hrest : ∀ e' ∈ rest, e'.tx? ≠ some tx := fun e' he' =>
        hothers e' (List.mem_cons_of_mem _ he')
      have hfirst : (s.happen [e]).store = (s.store.step e).2 := rfl
      exact .others (hothers e List.mem_cons_self) hfirst (ih hrest h)

/-- A run among others that take turns at the calls of the work is such a run. -/
theorem amidst_amid (tx : TxId) (w : Work α) (company : List (List Event)) (s : Service) :
    Amidst tx w s (w.amid tx company s).2.1.work (w.amid tx company s).2.2 := by
  induction w generalizing company s with
  | done outcome => exact .stays _ _
  | request r next ih =>
      refine amidst_happen (@Event.not_mine_of_around tx (company.headD [])) ?_
      simp only [amid]
      cases h : (s.happen (Event.around (some tx) (company.headD []))).request tx r with
      | mk answer s₁ =>
          refine .goes ?_
          rw [step, h]
          cases answer with
          | none => exact .stays _ _
          | some answer => exact ih answer company.tail s₁
  | commit next ih =>
      exact amidst_happen Event.not_mine_of_around (.goes (ih _ _ _))
  | rollback next ih =>
      exact amidst_happen Event.not_mine_of_around (.goes (ih _ _ _))
  | pause millis next => exact .stays _ _
  | tell notice next ih => exact .goes (ih _ _)
  | note n next ih => exact .goes (ih _ _)
  | crash => exact .stays _ _

/-- Work that others have been let into and that has ended. -/
theorem amidst_of_outcome {company : List (List Event)} {outcome : Except Failure α}
    (h : (w.amid tx company s).2.1.outcome? = some outcome) :
    Amidst tx w s (.done outcome) (w.amid tx company s).2.2 := by
  have hrun := amidst_amid tx w company s
  generalize w.amid tx company s = result at h hrun
  rcases result with ⟨_, progress, s'⟩
  cases progress with
  | ended outcome' => exact Option.some.inj h ▸ hrun
  | blocked => simp [Progress.outcome?] at h
  | pausing => simp [Progress.outcome?] at h
  | crashed => simp [Progress.outcome?] at h

end Runs

/-- From this record on, whatever others do, the work ends with a value and a record such as these,
or it fails with such a record. -/
def Leads (tx : TxId) (t : OpenTx) (w : Work α) (returns : α → OpenTx → Prop)
    (fails : OpenTx → Prop) : Prop :=
  ∀ (s s' : Service) (outcome : Except Failure α), s.store.OpenAs tx t →
    Amidst tx w s (.done outcome) s' → ∃ t', s'.store.OpenAs tx t' ∧
      match outcome with
      | .ok a => returns a t'
      | .error _ => fails t'

/-- Work that has ended stays so, and its record as well. -/
theorem amidst_done {outcome : Except Failure α} {w' : Work α} {s s' : Service}
    (h : Amidst tx (.done outcome) s w' s') (hopen : s.store.OpenAs tx t) :
    w' = .done outcome ∧ s'.store.OpenAs tx t := by
  generalize hw : Work.done outcome = w at h
  induction h with
  | stays => exact ⟨rfl, hopen⟩
  | goes _ ih =>
      subst hw
      exact ih hopen rfl
  | others he hstore _ ih => exact ih (hstore ▸ Store.openAs_other hopen he) hw

-- As for a walk without others, the work is the first part with the rest behind it as long as that
-- part goes on.
/-- Work comes to its end before anything else begins. -/
theorem amidst_settle {w : Work α} {f : Except Failure α → Work β} {outcome : Except Failure β}
    {s s' : Service} (h : Amidst tx (w.settle f) s (.done outcome) s') :
    ∃ first s₁, Amidst tx w s (.done first) s₁ ∧ Amidst tx (f first) s₁ (.done outcome) s' := by
  generalize hv : w.settle f = v at h
  generalize hend : Work.done outcome = last at h
  induction h generalizing w with
  | stays v s =>
      cases w with
      | done first => exact ⟨first, s, .stays _ _, hv ▸ .stays _ _⟩
      | _ => simp [← hv, settle] at hend
  | @goes v last s s' h ih =>
      by_cases hw : ∃ first, w = .done first
      · rcases hw with ⟨first, rfl⟩
        subst hv
        exact ⟨first, s, .stays _ _, .goes h⟩
      · have hstep := step_settle tx (fun first heq => hw ⟨first, heq⟩) f s
        rw [hv] at hstep
        rcases ih (w := (w.step tx s).1) (by rw [hstep]) hend with ⟨first, s₁, hfirst, hrest⟩
        rw [hstep] at hfirst
        exact ⟨first, s₁, .goes hfirst, hrest⟩
  | others he hstore _ ih =>
      rcases ih hv hend with ⟨first, s₁, hfirst, hrest⟩
      exact ⟨first, s₁, .others he hstore hfirst, hrest⟩

section Rules

variable {returns : α → OpenTx → Prop} {fails : OpenTx → Prop}

theorem leads_pure {a : α} (h : returns a t) : (pure a : Work α).Leads tx t returns fails := by
  intro s s' outcome hopen hrun
  rcases amidst_done hrun hopen with ⟨heq, hopen'⟩
  cases heq
  exact ⟨t, hopen', h⟩

theorem leads_fail {e : Failure} (h : fails t) : (fail e : Work α).Leads tx t returns fails := by
  intro s s' outcome hopen hrun
  rcases amidst_done hrun hopen with ⟨heq, hopen'⟩
  cases heq
  exact ⟨t, hopen', h⟩

theorem leads_mono {w : Work α} {returns' : α → OpenTx → Prop} {fails' : OpenTx → Prop}
    (h : w.Leads tx t returns fails) (hreturns : ∀ a t', returns a t' → returns' a t')
    (hfails : ∀ t', fails t' → fails' t') : w.Leads tx t returns' fails' := by
  intro s s' outcome hopen hrun
  rcases h s s' outcome hopen hrun with ⟨t', hopen', hpost⟩
  refine ⟨t', hopen', ?_⟩
  cases outcome with
  | ok a => exact hreturns a t' hpost
  | error e => exact hfails t' hpost

/-- One piece of work after another leads where the second one leads, or where the first one
fails. -/
theorem leads_bind {w : Work α} {f : α → Work β} {stops : OpenTx → Prop}
    {returns' : β → OpenTx → Prop} (h : w.Leads tx t returns stops)
    (hnext : ∀ a t', returns a t' → (f a).Leads tx t' returns' fails)
    (hstops : ∀ t', stops t' → fails t') : (w >>= f).Leads tx t returns' fails := by
  intro s s' outcome hopen hrun
  rcases amidst_settle hrun with ⟨first, s₁, hfirst, hrest⟩
  rcases h s s₁ first hopen hfirst with ⟨t₁, hopen₁, hpost⟩
  cases first with
  | ok a => exact hnext a t₁ hpost s₁ s' outcome hopen₁ hrest
  | error e => exact leads_fail (hstops t₁ hpost) s₁ s' outcome hopen₁ hrest

/-- To tell the log something leads nowhere else. -/
theorem leads_say {returns : Unit → OpenTx → Prop} (notice : Notice) (h : returns () t) :
    (say notice).Leads tx t returns fails := by
  intro s s' outcome hopen hrun
  generalize hw : say notice = w at hrun
  generalize hend : Work.done outcome = last at hrun
  induction hrun with
  | stays => simp [← hw, say] at hend
  | @goes w last s s' hrest ih =>
      subst hw hend
      exact leads_pure h (s.tell [notice]) s' outcome hopen hrest
  | others he hstore _ ih => exact ih (hstore ▸ Store.openAs_other hopen he) hw hend

theorem step_ask (r : Request) (s : Service) : (ask r).step tx s =
    (((s.store.ask tx r).1.toAnswer.map ofAnswer).getD (ask r), (s.request tx r).2) := by
  rw [ask, step, ← Service.request_answer]
  cases s.request tx r with
  | mk answer s' =>
      cases answer with
      | none => rfl
      | some answer => rfl

/-- A request is answered as if there were nobody else, or refused if its row is new. -/
theorem leads_ask {r : Request} {returns : Decimal → OpenTx → Prop}
    (hserved : ∀ accounts amount, (t.alone accounts r).1 = .served amount →
      returns amount (t.alone accounts r).2)
    (hrefused : ∀ accounts reason, (t.alone accounts r).1 = .refused reason →
      fails (t.alone accounts r).2)
    (hcycle : r.row ∉ t.held → fails t) : (ask r).Leads tx t returns fails := by
  intro s s' outcome hopen hrun
  have hasking := hopen.asking r
  clear hopen
  generalize hw : ask r = w at hrun
  generalize hend : Work.done outcome = last at hrun
  induction hrun with
  | stays => simp [← hw, ask] at hend
  | @goes w last s s' h ih =>
      subst hw hend
      have hstore := s.request_store tx r
      rw [step_ask] at h ih
      rcases Store.ask_askingAs hasking with
        ⟨hreply, hasking'⟩ | ⟨hreply, hopen⟩ | ⟨hnew, ⟨reason, hreply⟩, hopen⟩
      · rw [hreply] at ih
        exact ih (hstore ▸ hasking') rfl rfl
      · cases halone : (t.alone s.store.accounts r).1 with
        | served amount =>
            rw [hreply, halone] at h
            exact leads_pure (hserved _ _ halone) _ s' outcome (hstore ▸ hopen) h
        | refused reason =>
            rw [hreply, halone] at h
            exact leads_fail (hrefused _ _ halone) _ s' outcome (hstore ▸ hopen) h
        | waiting => exact absurd halone (OpenTx.alone_ne_waiting t r)
      · rw [hreply] at h
        exact leads_fail (hcycle hnew) _ s' outcome (hstore ▸ hopen) h
  | others he hstore _ ih =>
      exact ih (hstore ▸ Store.askingAs_other hasking he) hw hend

end Rules

end Work

end RowLedger
