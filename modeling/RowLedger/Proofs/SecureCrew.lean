import RowLedger.Crew
import RowLedger.Proofs.AssuredRuns

/-!
# Callers that cannot fail

Callers whose transfers cannot fail, in whatever order they move. There is
enough money for all that is still to go out, so there is enough for each
transfer by itself, whichever comes first. A move may commit one transfer, and
then what is still to go out of the account of its source is less by what has
gone out. All other callers keep what they know of their own transactions.

A caller takes part only by what it has left to do and by its transaction, so
who is first in the list does not matter, and it is enough to look at moves of
the first one.

## Main definitions

* `outstanding`: What is still to go through an account.
* `Caller.Stands`: Where a caller stands that has not failed.
* `Secure`: Callers that cannot fail, and their store.
* `Caller.Went`: What a move comes to.

## Theorems

* `secure_perm`: The order of the callers does not matter.
* `secure_moved`: What a move may do to the store.
* `secure_move`: A move keeps the callers secure.
-/

namespace RowLedger

open Work (conclude Under Passed Left Paid Walks)

/-- The transaction of the call at work. -/
def Caller.tx? (c : Caller) : Option TxId := c.call.bind RetryCall.openTx?

/-- A transfer of an exact amount between two accounts that are there. -/
structure Transfer.Viable (scale : Nat) (accounts : Table AccountId Account) (t : Transfer) :
    Prop where
  checked : t.check = .ok ()
  measured : Measured scale [t]
  source : (accounts.get? t.source).isSome = true
  target : (accounts.get? t.target).isSome = true

/-- What is still to go through an account on one side of the transfers. -/
def outstanding (side : Transfer → AccountId) (callers : List Caller) (id : AccountId) : Int :=
  (callers.map fun c => through side c.todo id).sum

/-- Where a caller stands that has not failed. -/
inductive Caller.Stands (scale : Nat) (total : Int) (s : Store) : Caller → Prop where
  | idle (todo : List Transfer) : Stands scale total s (.ofTransfers todo)
  | beginning (t : Transfer) (rest : List Transfer) :
      Stands scale total s ⟨t :: rest, some ⟨0, 0, .beginning none⟩, 0⟩
  | working {t : Transfer} {rest : List Transfer} {tx : TxId} {r : Request}
      {next : Except StoreFault Decimal → Work Unit} {v : Work Unit} {stage : Stage}
      (hwork : .request r next = v.settle conclude) (hbrisk : v.Brisk)
      (hunder : Under (.assured scale total [t]) s tx v stage
        (Passed (.assured scale total [t]) [t])) :
      Stands scale total s ⟨t :: rest, some ⟨0, 1, .blocked tx r next⟩, 0⟩

/-- Callers that cannot fail, and what the accounts will be when all is done. -/
structure Secure (scale : Nat) (total : Int) (goal : AccountId → Int) (b : Bench)
    (callers : List Caller) : Prop where
  plan : b.service.plan = .empty
  tally : b.tally = .zero
  consistent : b.service.store.Consistent
  acyclic : b.service.store.locks.Acyclic
  up : b.service.store.WaitsUp
  due : b.service.store.conflictsDue = 0
  balanced : Balanced scale total b.service.store.accounts
  stands : ∀ c ∈ callers, c.Stands scale total b.service.store
  viable : ∀ c ∈ callers, ∀ t ∈ c.todo, t.Viable scale b.service.store.accounts
  covered : ∀ id, outstanding (·.source) callers id ≤ unitsOf b.service.store.accounts id
  goal : ∀ id, unitsOf b.service.store.accounts id +
    (outstanding (·.target) callers id - outstanding (·.source) callers id) = goal id
  distinct : (callers.filterMap Caller.tx?).Nodup
  /-- Nobody else is there. -/
  owned : ∀ tx, (b.service.store.live.get? tx).isSome = true → tx ∈ callers.filterMap Caller.tx?

section Flow

variable {side : Transfer → AccountId} {scale : Nat} {accounts : Table AccountId Account}

theorem Transfer.Viable.checkAll {t : Transfer} (h : t.Viable scale accounts) :
    Transfer.checkAll [t] = .ok () := by
  rw [Transfer.checkAll, h.checked]
  rfl

theorem Transfer.Viable.positive {t : Transfer} (h : t.Viable scale accounts) :
    0 < t.amount.units :=
  (of_checkAll h.checkAll t List.mem_cons_self).1

theorem outstanding_cons (side : Transfer → AccountId) (c : Caller) (others : List Caller)
    (id : AccountId) :
    outstanding side (c :: others) id = through side c.todo id + outstanding side others id := by
  rw [outstanding, List.map_cons, List.sum_cons]
  rfl

/-- What has gone through an account is no longer to go through it. -/
theorem outstanding_of_append {c c' : Caller} {done : List Transfer}
    (htodo : c.todo = done ++ c'.todo) (side : Transfer → AccountId) (others : List Caller)
    (id : AccountId) :
    outstanding side (c :: others) id =
      through side done id + outstanding side (c' :: others) id := by
  rw [outstanding_cons, outstanding_cons, htodo, through_append, Int.add_assoc]

theorem outstanding_perm {callers callers' : List Caller} (h : callers.Perm callers')
    (side : Transfer → AccountId) (id : AccountId) :
    outstanding side callers id = outstanding side callers' id :=
  (h.map _).sum_eq

theorem outstanding_nonneg {callers : List Caller}
    (h : ∀ c ∈ callers, ∀ t ∈ c.todo, t.Viable scale accounts) (id : AccountId) :
    0 ≤ outstanding side callers id := by
  refine List.sum_nonneg ?_
  intro x hx
  rcases List.mem_map.1 hx with ⟨c, hc, rfl⟩
  exact through_nonneg (fun t ht => (h c hc t ht).positive) id

end Flow

section Stands

variable {scale : Nat} {total : Int} {s : Store} {c : Caller}

theorem Caller.Stands.failures (h : c.Stands scale total s) : c.failures = 0 := by
  cases h with
  | idle => rfl
  | beginning => rfl
  | working => rfl

/-- A call at work is at its first attempt. -/
theorem Caller.Stands.attempt (h : c.Stands scale total s) {call : RetryCall Unit}
    (hcall : c.call = some call) : call.attempt = 0 := by
  cases h with
  | idle => simp [Caller.ofTransfers] at hcall
  | beginning =>
      rw [Option.some.injEq] at hcall
      rw [← hcall]
  | working =>
      rw [Option.some.injEq] at hcall
      rw [← hcall]

/-- Who has nothing left to do has no call. -/
theorem Caller.Stands.call_of_done (h : c.Stands scale total s) (hdone : c.todo = []) :
    c.call = none := by
  cases h with
  | idle => rfl
  | beginning => simp at hdone
  | working => simp at hdone

theorem Caller.Stands.begun (h : c.Stands scale total s) {tx : TxId} (htx : c.tx? = some tx) :
    tx ≤ s.begun := by
  cases h with
  | idle => simp [Caller.tx?, Caller.ofTransfers] at htx
  | beginning => simp [Caller.tx?, RetryCall.openTx?] at htx
  | working _ _ hunder =>
      simp only [Caller.tx?, Option.bind_some, RetryCall.openTx?, Option.some.injEq] at htx
      exact htx ▸ hunder.begun

/-- The others leave a caller where it stands. -/
theorem Caller.Stands.others (h : c.Stands scale total s) (hconsistent : s.Consistent)
    {events : List Event} (hevents : ∀ e ∈ events, (∀ tx, c.tx? = some tx → e.tx? ≠ some tx) ∧
      ∀ id balance, e ≠ .insert id balance) : c.Stands scale total (s.after events) := by
  cases h with
  | idle todo => exact .idle todo
  | beginning t rest => exact .beginning t rest
  | working hwork hbrisk hunder =>
      refine .working hwork hbrisk (Work.under_others hconsistent hunder fun e he => ?_)
      exact ⟨(hevents e he).1 _ rfl, (hevents e he).2⟩

end Stands

theorem Store.conflictsDue_after {s : Store} {events : List Event}
    (hinject : ∀ e ∈ events, ∀ conflicts, e ≠ .inject conflicts) (hdue : s.conflictsDue = 0) :
    (s.after events).conflictsDue = 0 :=
  after_induction (P := fun s => s.conflictsDue = 0) events s hdue
    fun _ e he hs => conflictsDue_step (hinject e he) hs

/-- What a move does to a service on behalf of one transaction, apart from the accounts. -/
structure Moves (tx : TxId) (s s' : Service) : Prop where
  plan : s'.plan = .empty
  up : s'.store.WaitsUp
  events : ∃ events, s'.store = s.store.after events ∧ ∀ e ∈ events, e = .start ∨ e.tx? = some tx
  others : ∀ other, other ≠ tx →
    (s'.store.live.get? other).isSome = (s.store.live.get? other).isSome

section Secure

variable {scale : Nat} {total : Int} {goal : AccountId → Int} {b : Bench} {c : Caller}
  {callers callers' others : List Caller}

/-- The order of the callers does not matter. -/
theorem secure_perm (h : Secure scale total goal b callers) (hperm : callers.Perm callers') :
    Secure scale total goal b callers' where
  plan := h.plan
  tally := h.tally
  consistent := h.consistent
  acyclic := h.acyclic
  up := h.up
  due := h.due
  balanced := h.balanced
  stands c hc := h.stands c (hperm.mem_iff.2 hc)
  viable c hc := h.viable c (hperm.mem_iff.2 hc)
  covered id := by
    rw [← outstanding_perm hperm]
    exact h.covered id
  goal id := by
    rw [← outstanding_perm hperm, ← outstanding_perm hperm]
    exact h.goal id
  distinct := (hperm.filterMap _).nodup_iff.1 h.distinct
  owned tx htx := (hperm.filterMap _).mem_iff.1 (h.owned tx htx)

/-- What was told and noted does not matter. -/
theorem secure_congr {b' : Bench} (h : Secure scale total goal b callers)
    (hplan : b'.service.plan = b.service.plan) (hstore : b'.service.store = b.service.store)
    (htally : b'.tally = b.tally) : Secure scale total goal b' callers where
  plan := hplan.trans h.plan
  tally := htally.trans h.tally
  consistent := hstore ▸ h.consistent
  acyclic := hstore ▸ h.acyclic
  up := hstore ▸ h.up
  due := hstore ▸ h.due
  balanced := hstore ▸ h.balanced
  stands := hstore ▸ h.stands
  viable := hstore ▸ h.viable
  covered := hstore ▸ h.covered
  goal := hstore ▸ h.goal
  distinct := h.distinct
  owned := hstore ▸ h.owned

/-- There is enough money for each transfer that may come next. -/
theorem affords_next (h : Secure scale total goal b (c :: others)) {t : Transfer}
    {rest : List Transfer} (htodo : c.todo = t :: rest) :
    Affords b.service.store.accounts [t] := by
  have hviable := h.viable c List.mem_cons_self
  have hothers : ∀ id, 0 ≤ outstanding (·.source) others id :=
    outstanding_nonneg fun d hd => h.viable d (List.mem_cons_of_mem _ hd)
  rw [htodo] at hviable
  have hpositive := fun t' ht' => (hviable t' ht').positive
  refine ⟨fun id hmentions => ?_, fun id => ?_⟩
  · rcases hmentions with ⟨t', ht', hside⟩
    rw [List.mem_singleton.1 ht'] at hside
    rcases hside with rfl | rfl
    · exact (hviable t List.mem_cons_self).source
    · exact (hviable t List.mem_cons_self).target
  · have hcovered := h.covered id
    rw [outstanding_cons, htodo, through_cons] at hcovered
    have hrest : 0 ≤ through (·.source) rest id :=
      through_nonneg (fun t' ht' => hpositive t' (List.mem_cons_of_mem _ ht')) id
    have hin : 0 ≤ inflow [t] id :=
      through_nonneg (fun t' ht' => hpositive t' (List.mem_singleton.1 ht' ▸ List.mem_cons_self)) id
    have hout : outflow [t] id = if t.source = id then t.amount.units else 0 := by
      rw [outflow, through_cons]
      exact Int.add_zero _
    have := hothers id
    omega

theorem mem_others {other : TxId} (h : other ∈ (c :: others).filterMap Caller.tx?) :
    c.tx? = some other ∨ other ∈ others.filterMap Caller.tx? := by
  rw [List.mem_filterMap] at h
  rcases h with ⟨d, hd, htx⟩
  rcases List.mem_cons.1 hd with rfl | hd
  · exact Or.inl htx
  · exact Or.inr (List.mem_filterMap.2 ⟨d, hd, htx⟩)

theorem distinct_others (h : ((c :: others).filterMap Caller.tx?).Nodup) :
    (others.filterMap Caller.tx?).Nodup ∧
      ∀ tx, c.tx? = some tx → tx ∉ others.filterMap Caller.tx? := by
  rw [List.filterMap_cons] at h
  cases htx : c.tx? with
  | none =>
      simp only [htx] at h
      exact ⟨h, by simp⟩
  | some tx =>
      simp only [htx, List.nodup_cons] at h
      refine ⟨h.2, ?_⟩
      rintro _ ⟨rfl⟩
      exact h.1

section Moved

variable {tx : TxId} {c' : Caller} {s' : Service}
  (h : Secure scale total goal b (c :: others))
include h

/-- A move leaves the others where they stand. -/
theorem stands_moved (hmoves : Moves tx b.service s') (hnew : tx ∉ others.filterMap Caller.tx?)
    {d : Caller} (hd : d ∈ others) : d.Stands scale total s'.store := by
  rcases hmoves.events with ⟨events, hstore, hevents⟩
  rw [hstore]
  refine (h.stands d (List.mem_cons_of_mem _ hd)).others h.consistent fun e he =>
    ⟨fun other htx => Event.tx?_ne_of_mine (hevents e he) fun hsame => ?_,
      Event.ne_insert_of_mine (hevents e he)⟩
  exact hnew (List.mem_filterMap.2 ⟨d, hd, hsame ▸ htx⟩)

/-- No two callers have the same transaction after a move. -/
theorem distinct_moved (hnew : tx ∉ others.filterMap Caller.tx?)
    (hnext : ∀ other, c'.tx? = some other → other = tx) :
    ((c' :: others).filterMap Caller.tx?).Nodup := by
  rcases distinct_others h.distinct with ⟨hothers, _⟩
  rw [List.filterMap_cons]
  cases htx : c'.tx? with
  | none => exact hothers
  | some other => exact List.nodup_cons.2 ⟨hnext other htx ▸ hnew, hothers⟩

/-- Nobody but the callers is there after a move. -/
theorem owned_moved (hmoves : Moves tx b.service s')
    (hmine : ∀ other, c.tx? = some other → other = tx)
    (hnext : c'.tx? = some tx ∨ c'.tx? = none ∧ s'.store.live.get? tx = none) {other : TxId}
    (hlive : (s'.store.live.get? other).isSome = true) :
    other ∈ (c' :: others).filterMap Caller.tx? := by
  by_cases heq : other = tx
  · rcases hnext with htx | ⟨_, hended⟩
    · exact List.mem_filterMap.2 ⟨c', List.mem_cons_self, heq ▸ htx⟩
    · rw [heq, hended] at hlive
      simp at hlive
  · rw [hmoves.others other heq] at hlive
    rcases mem_others (h.owned other hlive) with htx | hmem
    · exact absurd (hmine other htx) heq
    · rcases List.mem_filterMap.1 hmem with ⟨d, hd, htx⟩
      exact List.mem_filterMap.2 ⟨d, List.mem_cons_of_mem _ hd, htx⟩

/-- What a move may do to the store and to the caller who makes it. Some transfers are done, and
what the accounts have changed by is what these move. -/
theorem secure_moved (done : List Transfer) (hmoves : Moves tx b.service s')
    (htodo : c.todo = done ++ c'.todo) (hbalanced : Balanced scale total s'.store.accounts)
    (hthere : ∀ id, (s'.store.accounts.get? id).isSome =
      (b.service.store.accounts.get? id).isSome)
    (hunits : ∀ id, unitsOf s'.store.accounts id =
      unitsOf b.service.store.accounts id + (inflow done id - outflow done id))
    (hstands : c'.Stands scale total s'.store) (hnew : tx ∉ others.filterMap Caller.tx?)
    (hmine : ∀ other, c.tx? = some other → other = tx)
    (hnext : c'.tx? = some tx ∨ c'.tx? = none ∧ s'.store.live.get? tx = none) :
    Secure scale total goal ⟨s', b.tally⟩ (c' :: others) := by
  rcases hmoves.events with ⟨events, hstore, hevents⟩
  have hdone : ∀ t ∈ done, 0 < t.amount.units := fun t ht =>
    (h.viable c List.mem_cons_self t (htodo ▸ List.mem_append_left _ ht)).positive
  refine ⟨hmoves.plan, h.tally, ?_, ?_, hmoves.up, ?_, hbalanced, ?_, ?_, ?_, ?_, ?_, ?_⟩
  · rw [hstore]
    exact Store.consistent_after h.consistent events
  · rw [hstore]
    exact Store.acyclic_after h.acyclic events
  · rw [hstore]
    exact Store.conflictsDue_after (fun e he => Event.ne_inject_of_mine (hevents e he)) h.due
  · exact List.forall_mem_cons.2 ⟨hstands, fun d hd => stands_moved h hmoves hnew hd⟩
  · intro d hd t ht
    have hold : t.Viable scale b.service.store.accounts := by
      rcases List.mem_cons.1 hd with rfl | hd
      · exact h.viable c List.mem_cons_self t (htodo ▸ List.mem_append_right _ ht)
      · exact h.viable d (List.mem_cons_of_mem _ hd) t ht
    exact ⟨hold.checked, hold.measured, (hthere _).trans hold.source, (hthere _).trans hold.target⟩
  · intro id
    have hin : 0 ≤ inflow done id := through_nonneg hdone id
    have hcovered := h.covered id
    rw [outstanding_of_append htodo] at hcovered
    rw [hunits, outflow]
    omega
  · intro id
    rw [← h.goal id, hunits, outstanding_of_append htodo, outstanding_of_append htodo, inflow,
      outflow]
    omega
  · refine distinct_moved h hnew fun other htx => ?_
    rcases hnext with hsome | ⟨hnone, _⟩
    · exact Option.some.inj (htx.symm.trans hsome)
    · simp [hnone] at htx
  · exact fun other => owned_moved h hmoves hmine hnext

end Moved

end Secure

/-- A transaction in which a caller goes on with a transfer, and what it goes on with. -/
structure Poised (scale : Nat) (total : Int) (b : Bench) (t : Transfer) (tx : TxId) (s : Service)
    (v : Work Unit) (stage : Stage) : Prop where
  plan : s.plan = .empty
  left : Left tx b.service s
  events : ∃ events, s.store = b.service.store.after events ∧
    ∀ e ∈ events, e = .start ∨ e.tx? = some tx
  suits : s.store.Suits (.assured scale total [t])
  brisk : v.Brisk
  under : Under (.assured scale total [t]) s.store tx v stage
    (Passed (.assured scale total [t]) [t])

/-- What a move comes to. -/
inductive Caller.Went (gait : Work.Gait Unit) (c : Caller) (b : Bench) : Caller → Bench → Prop where
  | done (htodo : c.todo = []) : Went gait c b c b
  | entered {c' : Caller} {b' : Bench} (hcall : c.call = none) (hcall' : c'.call.isSome = true)
      (htodo : c'.todo = c.todo) (hblocked : c'.isBlocked = false)
      (hstore : b'.service.store = b.service.store) : Went gait c b c' b'
  /-- The caller stands at a request. -/
  | stopped {c' : Caller} {b' : Bench} {tx : TxId} {r : Request}
      {next : Except StoreFault Decimal → Work Unit} {w : Work Unit} {s : Service}
      (htx : c'.tx? = some tx) (hrun : gait tx w s = (.blocked r next, b'.service))
      (htodo : c'.todo = c.todo) (hblocked : c'.isBlocked = true)
      (hleft : Left tx b.service b'.service) : Went gait c b c' b'
  /-- A transfer is done. -/
  | finished {c' : Caller} {b' : Bench} {t : Transfer} (hcall : c.call.isSome = true)
      (hcall' : c'.call = none) (htodo : c.todo = t :: c'.todo) : Went gait c b c' b'

section Move

variable {scale : Nat} {total : Int} {goal : AccountId → Int} {b : Bench} {c : Caller}
  {others : List Caller} {t : Transfer} {rest : List Transfer} {tx : TxId} {s s' : Service}
  {v : Work Unit} {stage : Stage}

/-- What comes before a move belongs to it. -/
theorem moves_of_poised (h : Poised scale total b t tx s v stage) (hplan : s'.plan = .empty)
    (hup : s'.store.WaitsUp)
    (hevents : ∃ events, s'.store = s.store.after events ∧ ∀ e ∈ events, e.tx? = some tx)
    (hothers : ∀ other, other ≠ tx →
      (s'.store.live.get? other).isSome = (s.store.live.get? other).isSome) :
    Moves tx b.service s' := by
  rcases h.events with ⟨first, hfirst, hbefore⟩
  rcases hevents with ⟨second, hsecond, hafter⟩
  refine ⟨hplan, hup, ⟨first ++ second, ?_, ?_⟩, fun other hne => ?_⟩
  · rw [Store.after_append, ← hfirst, hsecond]
  · intro e he
    rcases List.mem_append.1 he with he | he
    · exact hbefore e he
    · exact Or.inr (hafter e he)
  · rw [hothers other hne, h.left.live other hne]

theorem new_of_begun (h : Secure scale total goal b (c :: others)) :
    b.service.start.1 ∉ others.filterMap Caller.tx? := by
  intro hmem
  rcases List.mem_filterMap.1 hmem with ⟨d, hd, htx⟩
  have hle := (h.stands d (List.mem_cons_of_mem _ hd)).begun htx
  exact Nat.not_succ_le_self _ hle

/-- To ask for a transaction changes nothing. -/
theorem secure_entered (h : Secure scale total goal b (.ofTransfers (t :: rest) :: others)) :
    Secure scale total goal b (⟨t :: rest, some ⟨0, 0, .beginning none⟩, 0⟩ :: others) :=
  { h with
    stands := List.forall_mem_cons.2 ⟨.beginning t rest, fun d hd =>
      h.stands d (List.mem_cons_of_mem _ hd)⟩
    viable := List.forall_mem_cons.2 ⟨h.viable (.ofTransfers _) List.mem_cons_self, fun d hd =>
      h.viable d (List.mem_cons_of_mem _ hd)⟩ }

section Poised

variable {call : RetryCall Unit}
  (h : Secure scale total goal b (⟨t :: rest, some call, 0⟩ :: others))
  (hpoised : Poised scale total b t tx s v stage) (hnew : tx ∉ others.filterMap Caller.tx?)
  (hmine : ∀ other, Caller.tx? ⟨t :: rest, some call, 0⟩ = some other → other = tx)
include h hpoised hnew hmine

/-- A call that has stopped at a request has changed no account. -/
theorem secure_stopped {v' : Work Unit} {r : Request} {next : Except StoreFault Decimal → Work Unit}
    (hwork : .request r next = v'.settle conclude) (hbrisk : v'.Brisk) (hleft : Left tx s s')
    (hreached : Work.Reached (.assured scale total [t]) s tx stage
      (Passed (.assured scale total [t]) [t]) v' s') :
    Secure scale total goal ⟨s', b.tally⟩
        (⟨t :: rest, some ⟨0, 1, .blocked tx r next⟩, 0⟩ :: others) ∧
      Left tx b.service s' := by
  rcases hreached.under with ⟨stage', hunder, _⟩
  have hall : Left tx b.service s' :=
    ⟨hleft.accounts.trans hpoised.left.accounts, fun other hne =>
      (hleft.live other hne).trans (hpoised.left.live other hne)⟩
  have hmoves : Moves tx b.service s' :=
    moves_of_poised hpoised hreached.plan (hreached.suits.up.resolve_left id).1
      hreached.events fun other hne => by rw [hleft.live other hne]
  refine ⟨secure_moved h [] hmoves rfl hreached.suits.accounts.1 ?_ ?_
    (.working hwork hbrisk hunder) hnew hmine (Or.inl rfl), hall⟩
  · intro id
    rw [hall.accounts]
  · intro id
    rw [hall.accounts]
    exact (Int.add_zero _).symm

/-- A call that has come to its end has done its transfer. -/
theorem secure_concluded (hpaid : Paid scale total [t] tx s s') :
    Secure scale total goal ⟨s', b.tally⟩ (.ofTransfers rest :: others) := by
  have hmoves : Moves tx b.service s' :=
    moves_of_poised hpoised hpaid.plan hpaid.up hpaid.events hpaid.others
  refine secure_moved h [t] hmoves rfl hpaid.balanced ?_ ?_ (.idle rest) hnew hmine
    (Or.inr ⟨rfl, hpaid.ended⟩)
  · intro id
    rw [hpaid.there, hpoised.left.accounts]
  · intro id
    rw [hpaid.units, hpoised.left.accounts]

end Poised

variable (htotal : total < Decimal.capacity scale)
include htotal

/-- A transaction of its own for the next transfer. -/
theorem poised_start (h : Secure scale total goal b (c :: others)) (htodo : c.todo = t :: rest) :
    Poised scale total b t b.service.start.1 b.service.start.2 (Work.applyTransfer t)
      (.running .fresh b.service.store.accounts) := by
  have hviable := h.viable c List.mem_cons_self t (htodo ▸ List.mem_cons_self)
  have haffords := affords_next h htodo
  have hsuits := Work.suits_assured h.consistent h.up h.due h.balanced haffords
  rcases Work.under_start hsuits (Work.passed_applyTransfers htotal hviable.measured
    hviable.checkAll ⟨h.balanced, haffords⟩) with ⟨hsuits', hunder⟩
  refine ⟨h.plan, ⟨rfl, fun other hne => ?_⟩, ⟨[.start], rfl, by simp⟩, hsuits',
    Work.brisk_applyTransfers [t], hunder⟩
  exact (Store.live_start b.service.store other).trans (if_neg fun hc => hne hc.symm)

variable {gait : Work.Gait Unit}
  (hgait : ∀ tx w s, Walks tx w s (gait tx w s).1.work (gait tx w s).2)
include hgait

/-- A call that goes on stops at a request, or its transfer is done. -/
theorem secure_advanced {backoff : Backoff} {number : Nat} {call : RetryCall Unit}
    {phase : CallPhase Unit}
    (h : Secure scale total goal b (⟨t :: rest, some call, 0⟩ :: others))
    (hpoised : Poised scale total b t tx s v stage) (hnew : tx ∉ others.filterMap Caller.tx?)
    (hmine : ∀ other, Caller.tx? ⟨t :: rest, some call, 0⟩ = some other → other = tx)
    (hresume : call.resumeAt gait (t.rules backoff) b = RetryCall.advanced (t.rules backoff)
      ⟨0, 1, phase⟩ tx (gait tx (v.settle conclude) s) b.tally) :
    ∃ c' b', Caller.move gait backoff number ⟨t :: rest, some call, 0⟩ b = (c', b') ∧
      Secure scale total goal b' (c' :: others) ∧
      Caller.Went gait ⟨t :: rest, some call, 0⟩ b c' b' := by
  have hviable := h.viable _ List.mem_cons_self t List.mem_cons_self
  have hwalk := hgait tx (v.settle conclude) s
  cases hrun : gait tx (v.settle conclude) s with
  | mk progress s' =>
      rw [hrun] at hwalk hresume
      rcases Work.walked_concluded htotal hviable.measured hviable.checkAll hpoised.plan
        hpoised.suits hpoised.under hpoised.brisk hwalk with
        ⟨v', hwork, hbrisk, hleft, hreached⟩ | ⟨hwork, hpaid⟩
      · rcases Work.blocked_of_concluding hbrisk hwork with ⟨r, next, rfl⟩
        rcases secure_stopped h hpoised hnew hmine hwork hbrisk hleft hreached with
          ⟨hsecure, hall⟩
        refine ⟨⟨t :: rest, some ⟨0, 1, .blocked tx r next⟩, 0⟩, ⟨s', b.tally⟩, ?_, hsecure,
          .stopped rfl hrun rfl rfl hall⟩
        simp only [Caller.move, hresume, RetryCall.advanced]
      · have hprogress : progress = .ended (.ok ()) := Work.ended_of_work hwork
        rw [hprogress] at hresume
        -- The transaction is gone, so there is nothing to give back.
        have hdropped : (s'.drop tx).store = s'.store := Store.release_of_ended hpaid.ended
        refine ⟨.ofTransfers rest, ⟨(s'.drop tx).tell [], b.tally⟩, ?_,
          secure_congr (secure_concluded h hpoised hnew hmine hpaid) rfl hdropped rfl,
          .finished rfl rfl rfl⟩
        simp only [Caller.move, hresume, RetryCall.advanced, RetryCall.attemptEnded,
          RetryCall.countRetry, ↓reduceIte]
        rfl

/-- Whoever moves, all stay secure. -/
theorem secure_move (h : Secure scale total goal b (c :: others)) (backoff : Backoff)
    (number : Nat) :
    Secure scale total goal (c.move gait backoff number b).2
        ((c.move gait backoff number b).1 :: others) ∧
      c.Went gait b (c.move gait backoff number b).1 (c.move gait backoff number b).2 := by
  have hexists : ∃ c' b', c.move gait backoff number b = (c', b') ∧
      Secure scale total goal b' (c' :: others) ∧ c.Went gait b c' b' := by
    cases h.stands c List.mem_cons_self with
    | idle todo =>
        cases todo with
        | nil => exact ⟨_, b, rfl, h, .done rfl⟩
        | cons t rest =>
            have hbegins : b.service.plan.begins = [] := by
              rw [h.plan]
              rfl
            have hfault : b.service.takeBeginFault = (none, b.service) := by
              rw [Service.takeBeginFault, hbegins]
            refine ⟨⟨t :: rest, some ⟨0, 0, .beginning none⟩, 0⟩, b, ?_, secure_entered h,
              .entered rfl rfl rfl rfl rfl⟩
            simp only [Caller.move, Caller.ofTransfers, RetryCall.enter, RetryCall.attemptFrom,
              hfault]
    | beginning t rest =>
        refine secure_advanced htotal hgait h (poised_start htotal h rfl) (new_of_begun h) ?_ rfl
        intro other htx
        simp [Caller.tx?, RetryCall.openTx?] at htx
    | @working t rest tx r next v stage hwork hbrisk hunder =>
        have haffords := affords_next h rfl
        have hpoised : Poised scale total b t tx b.service v stage :=
          ⟨h.plan, ⟨rfl, fun _ _ => rfl⟩, ⟨[], rfl, by simp⟩,
            Work.suits_assured h.consistent h.up h.due h.balanced haffords, hbrisk, hunder⟩
        have hresume : RetryCall.resumeAt gait (t.rules backoff) ⟨0, 1, .blocked tx r next⟩ b =
            RetryCall.advanced (t.rules backoff) ⟨0, 1, .blocked tx r next⟩ tx
              (gait tx (v.settle conclude) b.service) b.tally := by
          rw [← hwork]
          rfl
        refine secure_advanced htotal hgait h hpoised ((distinct_others h.distinct).2 tx rfl) ?_
          hresume
        intro other htx
        simp only [Caller.tx?, Option.bind_some, RetryCall.openTx?, Option.some.injEq] at htx
        exact htx.symm
  rcases hexists with ⟨c', b', hmove, hsecure, hwent⟩
  rw [hmove]
  exact ⟨hsecure, hwent⟩

end Move

end RowLedger
