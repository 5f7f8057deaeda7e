import RowLedger.Crossing
import RowLedger.Proofs.BatchOutcome
import RowLedger.Proofs.Conservation
import RowLedger.Proofs.Walks

/-!
# Crossing transfers keep the balances

However two crossing transfers come out, nothing is made or lost. Each side
locks its rows before it writes, so what it commits is what a batch of one
transfer would commit, and the store objects to what a check would object to.
The sides stand in each other's way, but neither changes what the other one has
under lock; and it does not matter in which order they are taken up again, nor
which of them is failed by the store.

## Main definitions

* `Work.Crossed`: How the body of a side ends.
* `CrossingSide.Sound`, `Crossing.Sound`: Sides under way, and a pair of them.

## Theorems

* `balanced_applied`: Deltas of a batch that can be applied keep the balances.
* `meets_crossing`: A side keeps the balances.
* `sound_start`, `sound_resume`: So do both, in whatever order.
* `balanced_run`: And so they do on the clock.
-/

namespace RowLedger

section Applied

variable {s : Nat} {total : Int} {batch : List Transfer} {deltas : Deltas}
  {before after : Table AccountId Account}

/-- What can be added to a balance without an objection at the commit would have passed the check
before it. -/
theorem objection?_of_applied {account new : Account} {id : AccountId} {delta : Decimal}
    (happlied : Store.applied account id delta = .ok new) :
    Locked.objection? ⟨id, account.balance.shown, delta⟩ = none := by
  rw [Store.applied] at happlied
  rw [Locked.objection?, Decimal.add?_shown]
  cases hnext : account.balance.add? delta with
  | none => simp [hnext] at happlied
  | some next =>
      cases hnegative : next.isNegative with
      | true => simp [hnext, hnegative] at happlied
      | false => simp [hnegative]

/-- Nothing is objected to a delta that is zero. -/
theorem objection?_of_isZero {account : Account} {id : AccountId} {delta : Decimal}
    (hnonneg : 0 ≤ account.balance.units) (hzero : delta.isZero = true) :
    Locked.objection? ⟨id, account.balance.shown, delta⟩ = none := by
  have hsum : ∃ next, account.balance.add? delta = some next ∧ 0 ≤ next.units := by
    cases hbalance : account.balance.isZero with
    | true =>
        refine ⟨delta, Decimal.add?_zero_left hbalance, ?_⟩
        rw [(Decimal.isZero_iff delta).1 hzero]
    | false => exact ⟨account.balance, Decimal.add?_zero_right hbalance hzero, hnonneg⟩
  rcases hsum with ⟨next, hnext, hle⟩
  have hnegative : next.isNegative = false := by
    rw [← Bool.not_eq_true, Decimal.isNegative_iff]
    exact Int.not_lt.2 hle
  rw [Locked.objection?, Decimal.add?_shown, hnext]
  simp only [hnegative, Bool.false_eq_true, ↓reduceIte]

-- The locked accounts are read off the accounts themselves: it is as if the batch had been cleared.
/-- Deltas of a batch that can be applied keep the balances. -/
theorem balanced_applied (hbalanced : Balanced s total before) (htotal : total < Decimal.capacity s)
    (hmeasured : Measured s batch) (hchecked : Transfer.checkAll batch = .ok ())
    (hnet : netDeltas batch = .ok deltas)
    (hthere : ∀ e ∈ deltas.entries, (before.get? e.1).isSome = true)
    (happlied : Store.applyAll before (deltas.entries.filter matters) = .ok after) :
    Balanced s total after := by
  let lock : AccountId × Decimal → Locked := fun e =>
    ⟨e.1, ((before.get? e.1).map fun account => account.balance.shown).getD .zero, e.2⟩
  have hread : ∀ e ∈ deltas.entries, ∃ account, before.get? e.1 = some account ∧
      lock e = ⟨e.1, account.balance.shown, e.2⟩ := by
    intro e he
    rcases Option.isSome_iff_exists.1 (hthere e he) with ⟨account, haccount⟩
    refine ⟨account, haccount, ?_⟩
    simp only [lock, haccount, Option.map_some, Option.getD_some]
  have hcleared : Cleared (.measured s total) batch before after deltas
      (deltas.entries.map lock) := by
    refine ⟨hchecked, hnet, ?_, ?_, ?_, happlied⟩
    · rw [List.map_map]
      exact List.map_id _
    · intro l hl
      rcases List.mem_map.1 hl with ⟨e, he, rfl⟩
      rcases hread e he with ⟨account, haccount, hlock⟩
      rw [hlock]
      cases hzero : e.2.isZero with
      | true => exact objection?_of_isZero (hbalanced.nonneg e.1 account haccount) hzero
      | false =>
          have hmem : e ∈ deltas.entries.filter matters :=
            List.mem_filter.2 ⟨he, by rw [matters, hzero]; rfl⟩
          rcases Store.get?_applyAll (deltas.ascending.filter _) happlied hmem haccount with
            ⟨new, hnew, _⟩
          exact objection?_of_applied hnew
    · intro _ l hl
      rcases List.mem_map.1 hl with ⟨e, he, rfl⟩
      rcases hread e he with ⟨account, haccount, hlock⟩
      rw [hlock]
      exact ⟨account, haccount, Decimal.add?_zero account.balance⟩
  exact balanced_cleared hcleared trivial hbalanced hmeasured htotal

end Applied

/-- The deltas of a single transfer. -/
def Transfer.deltas (t : Transfer) : Deltas :=
  (Table.empty.insert t.source t.amount.neg).insert t.target t.amount

section Single

variable {t : Transfer} (hchecked : Transfer.checkAll [t] = .ok ())
include hchecked

theorem isZero_of_checked : t.amount.isZero = false := by
  rw [← Bool.not_eq_true, Decimal.isZero_iff]
  exact Int.ne_of_gt (of_checkAll hchecked t List.mem_cons_self).1

theorem netDeltas_single : netDeltas [t] = .ok t.deltas := by
  have hne := (of_checkAll hchecked t List.mem_cons_self).2
  have hzero := isZero_of_checked hchecked
  have hsource : Decimal.zero.sub? t.amount = some t.amount.neg := by
    rw [Decimal.sub?, if_neg (by simp [hzero]), Decimal.add?_zero_left rfl]
  have hother : Deltas.current (Table.empty.insert t.source t.amount.neg) t.target = .zero := by
    rw [Deltas.current_insert, if_neg hne]
    rfl
  have hfirst : Deltas.adjust .empty t.source (·.sub? t.amount) =
      .ok (Table.empty.insert t.source t.amount.neg) := by
    rw [Deltas.adjust, show Deltas.current .empty t.source = .zero from rfl, hsource]
  have hsecond : Deltas.adjust (Table.empty.insert t.source t.amount.neg) t.target
      (·.add? t.amount) = .ok t.deltas := by
    rw [Deltas.adjust, hother, Decimal.add?_zero_left rfl]
    rfl
  simp only [netDeltas, Deltas.moveAll, Deltas.move, hfirst, hsecond]

/-- Both deltas of a single transfer matter. -/
theorem matters_single : t.deltas.entries.filter matters = t.deltas.entries := by
  have hzero := isZero_of_checked hchecked
  rw [List.filter_eq_self]
  intro e he
  have hget : t.deltas.get? e.1 = some e.2 := (Table.mem_entries_iff _ _ _).1 he
  rw [Transfer.deltas, Table.get?_insert, Table.get?_insert] at hget
  have hdelta : e.2 = t.amount ∨ e.2 = t.amount.neg := by
    split at hget
    · exact Or.inl (Option.some.inj hget).symm
    · split at hget
      · exact Or.inr (Option.some.inj hget).symm
      · simp at hget
  rcases hdelta with hdelta | hdelta
  · rw [matters, hdelta, hzero]
    rfl
  · rw [matters, hdelta, show t.amount.neg.isZero = t.amount.isZero from rfl, hzero]
    rfl

end Single

namespace Work

variable {s : Nat} {total : Int} {t : OpenTx} {seen : Table AccountId Account}

/-- A new row is locked, or the query fails. -/
theorem meets_read {row : AccountId} (hnew : row ∉ t.held) (hpending : t.pending = .empty) :
    (query row).Meets (.measured s total) (.running t seen) fun outcome stage =>
      ∃ t' seen', stage = .running t' seen' ∧ ((∃ e, outcome = .error e) ∨
        t' = t.lock row ∧ (seen'.get? row).isSome = true ∧
          ∀ other ∈ t.held, seen'.get? other = seen.get? other) := by
  refine meets_ask trivial ?_ ?_
  · intro accounts amount hsees hserved
    rcases OpenTx.alone_query_new hnew hpending hserved with ⟨⟨account, haccount, _⟩, halone⟩
    rw [halone]
    exact ⟨_, _, rfl, Or.inr ⟨rfl, by rw [haccount]; rfl, hsees.2 trivial⟩⟩
  · exact fun e t' accounts _ => ⟨_, _, rfl, Or.inl ⟨e, rfl⟩⟩

/-- A delta is put down for a row that is held, or the update fails. -/
theorem meets_put {row : AccountId} {delta : Decimal} (hheld : row ∈ t.held)
    (hpending : t.pending.get? row = none) :
    (update row delta).Meets (.measured s total) (.running t seen) fun outcome stage =>
      ∃ t' seen', stage = .running t' seen' ∧ ((∃ e, outcome = .error e) ∨
        outcome = .ok () ∧ t' = { t with pending := t.pending.insert row delta } ∧
          ∀ other ∈ t.held, seen'.get? other = seen.get? other) := by
  have hasked : (ask (.update row delta)).Meets (.measured s total) (.running t seen)
      fun outcome stage => ∃ t' seen', stage = .running t' seen' ∧ ((∃ e, outcome = .error e) ∨
        t' = { t with pending := t.pending.insert row delta } ∧
          ∀ other ∈ t.held, seen'.get? other = seen.get? other) := by
    refine meets_ask trivial ?_ ?_
    · intro accounts amount hsees _
      rw [OpenTx.alone_update_held hheld hpending]
      exact ⟨_, _, rfl, Or.inr ⟨rfl, hsees.2 trivial⟩⟩
    · exact fun e t' accounts _ => ⟨_, _, rfl, Or.inl ⟨e, rfl⟩⟩
  refine meets_bind hasked ?_ ?_
  · rintro _ _ ⟨t', seen', rfl, ⟨e, he⟩ | hput⟩
    · simp at he
    · exact ⟨t', seen', rfl, Or.inr ⟨rfl, hput⟩⟩
  · rintro e _ ⟨t', seen', rfl, _⟩
    exact ⟨t', seen', rfl, Or.inl ⟨e, rfl⟩⟩

/-- How the body of one side of a crossing ends. -/
inductive Crossed (move : Transfer) : Except Failure Unit → Stage → Prop where
  | failed (e : Failure) (t : OpenTx) (seen : Table AccountId Account) :
      Crossed move (.error e) (.running t seen)
  | ready {t : OpenTx} {seen : Table AccountId Account}
      (hheld : move.source ∈ t.held ∧ move.target ∈ t.held)
      (hthere : (seen.get? move.source).isSome = true ∧ (seen.get? move.target).isSome = true)
      (hpending : t.pending = move.deltas) : Crossed move (.ok ()) (.running t seen)

/-- To pause is no call. -/
theorem meets_wait {c : Contract} {stage : Stage} (millis : Nat) :
    (wait millis).Meets c stage fun outcome stage' => outcome = .ok () ∧ stage' = stage := by
  rw [wait]
  split
  · exact ⟨rfl, rfl⟩
  · exact ⟨rfl, rfl⟩

section Crossing

variable {move : Transfer} (hchecked : Transfer.checkAll [move] = .ok ())
include hchecked

-- The second row may be the lower one, so this work asks out of order; its contract allows that.
/-- The body of one side of a crossing. -/
theorem meets_crossed (pause : Nat) :
    (do
      let _ ← query move.source
      wait pause
      let _ ← query move.target
      update move.source move.amount.neg
      update move.target move.amount : Work Unit).Meets (.measured s total)
        (.running .fresh seen) (Crossed move) := by
  have hne := (of_checkAll hchecked move List.mem_cons_self).2
  refine meets_bind (meets_read (by simp [OpenTx.fresh]) rfl) ?_ ?_
  · rintro _ _ ⟨t₁, seen₁, rfl, ⟨e, he⟩ | ⟨rfl, hsource, _⟩⟩
    · simp at he
    refine meets_bind (meets_wait pause) ?_ (by simp)
    rintro _ _ ⟨_, rfl⟩
    refine meets_bind (meets_read ?_ rfl) ?_ ?_
    · simpa [OpenTx.fresh] using fun hc => hne hc.symm
    · rintro _ _ ⟨t₂, seen₂, rfl, ⟨e, he⟩ | ⟨rfl, htarget, hsame₂⟩⟩
      · simp at he
      rw [← hsame₂ move.source (by simp)] at hsource
      refine meets_bind (meets_put (by simp) rfl) ?_ ?_
      · rintro _ _ ⟨t₃, seen₃, rfl, ⟨e, he⟩ | ⟨_, rfl, hsame₃⟩⟩
        · simp at he
        rw [← hsame₃ move.source (by simp)] at hsource
        rw [← hsame₃ move.target (by simp)] at htarget
        refine meets_mono (meets_put (by simp) ?_) ?_
        · change (Table.empty.insert move.source move.amount.neg).get? move.target = none
          rw [Table.get?_insert, if_neg hne]
          rfl
        · rintro _ _ ⟨t₄, seen₄, rfl, ⟨e, rfl⟩ | ⟨rfl, rfl, hsame₄⟩⟩
          · exact .failed e _ _
          · rw [← hsame₄ move.source (by simp)] at hsource
            rw [← hsame₄ move.target (by simp)] at htarget
            exact .ready ⟨by simp, by simp⟩ ⟨hsource, htarget⟩ rfl
      · rintro e _ ⟨t₃, seen₃, rfl, _⟩
        exact .failed e _ _
    · rintro e _ ⟨t₂, seen₂, rfl, _⟩
      exact .failed e _ _
  · rintro e _ ⟨t₁, seen₁, rfl, _⟩
    exact .failed e _ _

variable (htotal : total < Decimal.capacity s) (hmeasured : Measured s [move])
include htotal hmeasured

/-- One side of a crossing keeps the balances. -/
theorem meets_crossing (pause : Nat) :
    (crossing move.source move.target move.amount pause).Meets (.measured s total)
      (.running .fresh seen) fun _ _ => True := by
  refine meets_concluded (meets_crossed hchecked pause) ?_ ?_ fun _ _ => trivial
  · intro _ stage hready
    cases hready with
    | @ready t seen hheld hthere hpending =>
        refine ⟨t, seen, rfl, fun accounts accounts' hsees hall => ⟨?_, trivial⟩⟩
        have hnet := netDeltas_single hchecked
        rw [hpending, ← matters_single hchecked] at hall
        refine balanced_applied hsees.1 htotal hmeasured hchecked hnet ?_ hall
        intro e he
        rcases (mem_netDeltas hnet he).1 with ⟨t', ht', hside⟩
        rw [List.mem_singleton.1 ht'] at hside
        -- Both rows are still under lock.
        rcases hside with hid | hid
        · rw [← hid, hsees.2 trivial _ hheld.1]
          exact hthere.1
        · rw [← hid, hsees.2 trivial _ hheld.2]
          exact hthere.2
  · intro e stage hfailed
    cases hfailed with
    | failed _ t seen => exact ⟨t, seen, rfl, trivial⟩

end Crossing

end Work

/-- A store of which nothing is known but that its sums are exact. -/
theorem suits_measured {s : Nat} {total : Int} {store : Store} (hconsistent : store.Consistent)
    (hbalanced : Balanced s total store.accounts) : store.Suits (.measured s total) where
  consistent := hconsistent
  accounts := hbalanced
  up := Or.inl trivial
  due := Or.inl trivial

namespace CrossingSide

open Work (Under Reached Walks Progress)

variable {s : Nat} {total : Int} {store : Store} {service service' : Service}

/-- One side of a crossing, under way or ended, keeps the balances. -/
def Sound (s : Nat) (total : Int) (store : Store) (side : CrossingSide) : Prop :=
  ∃ stage, Under (.measured s total) store side.tx side.progress.work stage fun _ _ => True

/-- What one side does to a service. -/
structure Did (s : Nat) (total : Int) (tx : TxId) (service service' : Service) : Prop where
  plan : service'.plan = .empty
  suits : service'.store.Suits (.measured s total)
  events : ∃ events, service'.store = service.store.after events ∧
    ∀ e ∈ events, e = .start ∨ e.tx? = some tx

/-- The other side does not mind. -/
theorem sound_others {side : CrossingSide} {tx : TxId} (h : side.Sound s total service.store)
    (hconsistent : service.store.Consistent) (hdid : Did s total tx service service')
    (hne : side.tx ≠ tx) : side.Sound s total service'.store := by
  rcases h with ⟨stage, hunder⟩
  rcases hdid.events with ⟨events, hstore, hevents⟩
  rw [hstore]
  exact ⟨stage, Work.under_others hconsistent hunder fun e he =>
    ⟨Event.tx?_ne_of_mine (hevents e he) hne, Event.ne_insert_of_mine (hevents e he)⟩⟩

/-- A side that has stopped stays where it is, and one that has ended is dropped. -/
theorem did_after {tx : TxId} {w : Work Unit} {stage : Stage} {progress : Progress Unit}
    (hwalk : Walks tx w service progress.work service') (hplan : service.plan = .empty)
    (hsuits : service.store.Suits (.measured s total))
    (hunder : Under (.measured s total) service.store tx w stage fun _ _ => True) :
    Did s total tx service (after tx (progress, service')).2 ∧
      (after tx (progress, service')).1.Sound s total (after tx (progress, service')).2.store ∧
      (after tx (progress, service')).1.tx = tx := by
  have hreached := Work.under_walk hwalk hplan hsuits hunder
  rcases hreached.under with ⟨stage', hunder', _⟩
  rcases hreached.events with ⟨events, hstore, hevents⟩
  rw [after]
  cases hended : (CrossingSide.mk tx progress).hasEnded with
  | false =>
      refine ⟨⟨hreached.plan, hreached.suits, events, hstore, ?_⟩, ⟨stage', hunder'⟩, rfl⟩
      exact fun e he => Or.inr (hevents e he)
  | true =>
      have hlive := Store.ended_release service'.store tx
      have hbalanced : Balanced s total (service'.store.release tx).accounts := by
        rw [Store.release_accounts]
        exact hreached.suits.accounts
      refine ⟨⟨hreached.plan, suits_measured (Store.consistent_step hreached.suits.consistent
        (.drop tx)) hbalanced, events ++ [.drop tx], ?_, ?_⟩, ⟨.ended none, ?_⟩, rfl⟩
      · rw [Store.after_append, ← hstore]
        rfl
      · intro e he
        rcases List.mem_append.1 he with he | he
        · exact Or.inr (hevents e he)
        · rw [List.mem_singleton.1 he]
          exact Or.inr rfl
      · refine ⟨.ended none hlive, ?_, ?_, ?_⟩
        · cases progress with
          | ended => trivial
          | crashed => trivial
          | blocked => simp [hasEnded] at hended
          | pausing => simp [hasEnded] at hended
        · exact Nat.le_trans hunder'.begun (Nat.le_of_eq (Store.release_begun _ _).symm)
        · intro wait hwait
          have hnone : (service'.store.release tx).wait? tx = none := Store.wait?_of_ended hlive
          change (service'.store.release tx).wait? tx = some wait at hwait
          rw [hnone] at hwait
          simp at hwait

/-- A side begins. -/
theorem did_start {w : Work Unit} (hplan : service.plan = .empty)
    (hsuits : service.store.Suits (.measured s total))
    (hmeets : w.Meets (.measured s total) (.running .fresh service.store.accounts)
      fun _ _ => True) :
    Did s total service.start.1 service (start w service).2 ∧
      (start w service).1.Sound s total (start w service).2.store ∧
      (start w service).1.tx = service.start.1 := by
  rcases Work.under_start hsuits hmeets with ⟨hsuits', hunder⟩
  rcases did_after (Work.walks_run service.start.1 w service.start.2) hplan hsuits' hunder with
    ⟨hdid, hsound, htx⟩
  refine ⟨⟨hdid.plan, hdid.suits, ?_⟩, hsound, htx⟩
  rcases hdid.events with ⟨events, hstore, hevents⟩
  refine ⟨.start :: events, hstore, fun e he => ?_⟩
  rcases List.mem_cons.1 he with rfl | he
  · exact Or.inl rfl
  · exact hevents e he

/-- A side is taken up again. -/
theorem did_resume {side : CrossingSide} (hplan : service.plan = .empty)
    (hsuits : service.store.Suits (.measured s total)) (h : side.Sound s total service.store) :
    Did s total side.tx service (side.resume service).2 ∧
      (side.resume service).1.Sound s total (side.resume service).2.store ∧
      (side.resume service).1.tx = side.tx := by
  rcases side with ⟨tx, progress⟩
  have hstays : Did s total tx service service := ⟨hplan, hsuits, [], rfl, by simp⟩
  rcases h with ⟨stage, hunder⟩
  cases progress with
  | blocked r next =>
      exact did_after (Work.walks_run tx (.request r next) service) hplan hsuits hunder
  | pausing millis next =>
      have hwalk : Walks tx (.pause millis next) service (next.run tx service).1.work
          (next.run tx service).2 := .goes (Work.walks_run tx next service)
      exact did_after hwalk hplan hsuits hunder
  | ended outcome => exact ⟨hstays, ⟨stage, hunder⟩, rfl⟩
  | crashed => exact ⟨hstays, ⟨stage, hunder⟩, rfl⟩

end CrossingSide

namespace Crossing

variable {s : Nat} {total : Int} {service : Service}

/-- A crossing that keeps the balances. -/
structure Sound (s : Nat) (total : Int) (c : Crossing) : Prop where
  plan : c.service.plan = .empty
  suits : c.service.store.Suits (.measured s total)
  forward : c.forward.Sound s total c.service.store
  backward : c.backward.Sound s total c.service.store
  ne : c.forward.tx ≠ c.backward.tx

/-- Whichever side is taken up, the balances are kept. -/
theorem sound_resume {c : Crossing} (h : c.Sound s total) (d : Direction) :
    (c.resume d).Sound s total := by
  cases d with
  | forward =>
      rcases CrossingSide.did_resume h.plan h.suits h.forward with ⟨hdid, hsound, htx⟩
      refine ⟨hdid.plan, hdid.suits, hsound, ?_, ?_⟩
      · exact CrossingSide.sound_others h.backward h.suits.consistent hdid h.ne.symm
      · change (c.forward.resume c.service).1.tx ≠ c.backward.tx
        rw [htx]
        exact h.ne
  | backward =>
      rcases CrossingSide.did_resume h.plan h.suits h.backward with ⟨hdid, hsound, htx⟩
      refine ⟨hdid.plan, hdid.suits, ?_, hsound, ?_⟩
      · exact CrossingSide.sound_others h.forward h.suits.consistent hdid h.ne
      · change c.forward.tx ≠ (c.backward.resume c.service).1.tx
        rw [htx]
        exact h.ne

/-- In whatever order the sides are taken up, the balances are kept. -/
theorem sound_foldl {c : Crossing} (h : c.Sound s total) (order : List Direction) :
    (order.foldl resume c).Sound s total := by
  induction order generalizing c with
  | nil => exact h
  | cons d rest ih => exact ih (sound_resume h d)

theorem sound_play {t : Timed} (h : t.crossing.Sound s total) (times : Nat) :
    (t.play times).crossing.Sound s total := by
  induction times generalizing t with
  | zero => exact h
  | succ times ih =>
      rw [Timed.play]
      cases t.next? with
      | none => exact h
      | some next =>
          refine ih ?_
          have hresumed := sound_resume h next.1
          rcases next with ⟨d, instant⟩
          cases d with
          | forward => exact hresumed
          | backward => exact hresumed

variable {a b : AccountId} {forward backward : Decimal} (htotal : total < Decimal.capacity s)
  (hforward : Transfer.checkAll [⟨a, b, forward⟩] = .ok ())
  (hbackward : Transfer.checkAll [⟨b, a, backward⟩] = .ok ())
  (hmeasured : Measured s [⟨a, b, forward⟩]) (hmeasured' : Measured s [⟨b, a, backward⟩])
include htotal hforward hbackward hmeasured hmeasured'

/-- Both sides begin, one after the other. -/
theorem sound_start (pause : Nat) (hplan : service.plan = .empty)
    (hconsistent : service.store.Consistent)
    (hbalanced : Balanced s total service.store.accounts) :
    (start a b forward backward pause service).Sound s total := by
  have hsuits := suits_measured hconsistent hbalanced
  rcases CrossingSide.did_start hplan hsuits
    (Work.meets_crossing hforward htotal hmeasured pause) with ⟨hdid, hsound, htx⟩
  rw [start]
  generalize CrossingSide.start (Work.crossing a b forward pause) service = first
    at hdid hsound htx ⊢
  rcases first with ⟨f, service₁⟩
  simp only at hdid hsound htx
  rcases CrossingSide.did_start hdid.plan hdid.suits
    (Work.meets_crossing hbackward htotal hmeasured' pause) with ⟨hdid', hsound', htx'⟩
  -- The transaction of the second side is a new one.
  have hne : f.tx ≠ service₁.start.1 := by
    rcases hsound with ⟨stage, hunder⟩
    exact Nat.ne_of_lt (Nat.lt_succ_of_le hunder.begun)
  refine ⟨hdid'.plan, hdid'.suits, ?_, hsound', ?_⟩
  · exact CrossingSide.sound_others hsound hdid.suits.consistent hdid' hne
  · change f.tx ≠ (CrossingSide.start (Work.crossing b a backward pause) service₁).1.tx
    rw [htx']
    exact hne

/-- On the clock the balances are kept as well. -/
theorem balanced_run (pause : Nat) (hplan : service.plan = .empty)
    (hconsistent : service.store.Consistent)
    (hbalanced : Balanced s total service.store.accounts) :
    Balanced s total (run a b forward backward pause service).1.service.store.accounts :=
  (sound_play (sound_start htotal hforward hbackward hmeasured hmeasured' pause hplan hconsistent
    hbalanced) maxStops).suits.accounts

end Crossing

end RowLedger
