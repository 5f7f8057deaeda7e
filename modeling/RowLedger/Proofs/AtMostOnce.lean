import RowLedger.Conflict
import RowLedger.Proofs.Attempts

/-!
# Retried calls commit once at most

However a retried call comes to its end, and whatever the others do meanwhile:
of the transactions that it has begun only the last one may have committed, it
has committed exactly if the call returned a value, and nothing else that the
call did has changed an account. When the call is over none of its transactions
holds a row or has a wait.

What a call needs to know between two polls (`Course.Sound`) is that its record
is true, that all of its transactions have ended but the one that is open, that
the open one waits for no other row than the one it stands at, and that nothing
has been committed as long as no value has been returned.

## Main definitions

* `Course.CommitsLast`: The last transaction of a call has committed.
* `Course.Sound`: What holds between two polls of a call.
* `Course.Trying`: What holds while a transaction of it is open.

## Theorems

* `sound_ran`, `sound_step`, `sound_after`: The course of a call is sound.
* `at_most_once`: A call commits its last transaction or none.
-/

namespace RowLedger

namespace Course

variable {α : Type} {s₀ : Store}

/-- The last transaction of a call has committed, and no other one has. -/
def CommitsLast (s₀ : Store) (seen : List Event) (opened : List TxId) : Prop :=
  ∃ tx before later, opened.getLast? = some tx ∧ seen = before ++ .call tx .commit :: later ∧
    ((s₀.after before).step (.call tx .commit)).1 = some ⟨tx, .commit, .done⟩ ∧
    ∀ t ∈ opened, t ∉ commitOrder (s₀.answers before) ∧
      t ∉ commitOrder (((s₀.after before).step (.call tx .commit)).2.answers later)

/-- What holds between two polls of a call that was entered in a store. -/
structure Sound (s₀ : Store) (c : Course α) : Prop where
  consistent : s₀.Consistent
  store : c.store = s₀.after c.seen
  opened : ∀ tx ∈ c.opened, s₀.begun < tx ∧ tx ≤ c.store.begun
  /-- All transactions of the call have ended but the one that is open. -/
  closed : ∀ tx ∈ c.opened, c.call.openTx? ≠ some tx → c.store.live.get? tx = none
  last : ∀ tx, c.call.openTx? = some tx → c.opened.getLast? = some tx
  standing : ∀ tx work, c.call.standsAt? = some (tx, work) →
    ∃ w : Work α, w.OnlyAsks ∧ w.concluded = work ∧ c.store.Stands tx w.concluded
  failed : c.call.succeeded = false → ∀ tx ∈ c.opened, tx ∉ commitOrder (s₀.answers c.seen)
  succeeded : c.call.succeeded = true → CommitsLast s₀ c.seen c.opened

/-- A transaction is the open one of a call, and nothing has been committed. -/
structure Trying (s₀ : Store) (seen : List Event) (txs : List TxId) (tx : TxId) (s : Store) :
    Prop where
  consistent : s₀.Consistent
  store : s = s₀.after seen
  opened : ∀ t ∈ txs, s₀.begun < t ∧ t ≤ s.begun
  closed : ∀ t ∈ txs, t ≠ tx → s.live.get? t = none
  last : txs.getLast? = some tx
  failed : ∀ t ∈ txs, t ∉ commitOrder (s₀.answers seen)

section Trying

variable {seen events : List Event} {txs : List TxId} {tx : TxId} {s : Store} {c : Course α}

theorem Trying.mem (h : Trying s₀ seen txs tx s) : tx ∈ txs :=
  List.mem_of_getLast? h.last

/-- If the open transaction has not committed, no transaction of the call has. -/
theorem Trying.uncommitted (h : Trying s₀ seen txs tx s)
    (hnot : tx ∉ commitOrder (s.answers events)) {t : TxId} (ht : t ∈ txs) :
    t ∉ commitOrder (s₀.answers (seen ++ events)) := by
  refine Store.uncommitted_append (h.failed t ht) ?_
  rw [← h.store]
  by_cases heq : t = tx
  · rw [heq]
    exact hnot
  · exact Store.uncommitted_of_ended (h.closed t ht heq) (h.opened t ht).2 events

theorem Trying.opened_after (h : Trying s₀ seen txs tx s) (more : List Event) :
    ∀ t ∈ txs, s₀.begun < t ∧ t ≤ (s.after more).begun := by
  intro t ht
  have := h.opened t ht
  exact ⟨this.1, Nat.le_trans this.2 (Store.begun_after_le s more)⟩

/-- What is dropped has ended, and the others have ended before. -/
theorem Trying.closed_dropped (h : Trying s₀ seen txs tx s) (events : List Event) {t : TxId}
    (ht : t ∈ txs) : (s.after (events ++ [.drop tx])).live.get? t = none := by
  by_cases heq : t = tx
  · rw [Store.after_append, heq]
    exact Store.ended_release _ tx
  · exact Store.ended_after (h.closed t ht heq) (h.opened t ht).2 _

/-- The attempt stops on the way. -/
theorem sound_open (h : Trying s₀ seen txs tx s) {w : Work α} {call : RetryCall α}
    {bench : Bench} (hstore : bench.service.store = s.after events)
    (hnot : tx ∉ commitOrder (s.answers events)) (honly : w.OnlyAsks)
    (hstands : (s.after events).Stands tx w.concluded)
    (hat : call.standsAt? = some (tx, w.concluded)) :
    Sound s₀ (⟨call, bench, seen ++ events, txs⟩ : Course α) := by
  have hopen : call.openTx? = some tx := by
    rw [RetryCall.openTx?_eq, hat]
    rfl
  constructor
  · exact h.consistent
  · rw [Course.store, hstore, Store.after_append, h.store]
  · rw [Course.store, hstore]
    exact h.opened_after events
  · intro t ht hne
    rw [Course.store, hstore]
    have hne' : t ≠ tx := fun heq => hne (heq ▸ hopen)
    exact Store.ended_after (h.closed t ht hne') (h.opened t ht).2 events
  · intro t ht
    rw [hopen, Option.some.injEq] at ht
    exact ht ▸ h.last
  · intro t work hwork
    rw [hat, Option.some.injEq, Prod.mk.injEq] at hwork
    rcases hwork with ⟨rfl, rfl⟩
    rw [Course.store, hstore]
    exact ⟨w, honly, rfl, hstands⟩
  · exact fun _ t ht => h.uncommitted hnot ht
  · intro hsucceeded
    rw [RetryCall.succeeded_of_openTx hopen] at hsucceeded
    simp at hsucceeded

/-- The attempt is over, and its transaction is dropped. -/
theorem sound_over (h : Trying s₀ seen txs tx s) {call : RetryCall α} {bench : Bench}
    (hstore : bench.service.store = (s.after events).release tx) (hat : call.standsAt? = none)
    (hfailed : call.succeeded = false → tx ∉ commitOrder (s.answers events))
    (hsucceeded : call.succeeded = true → ∃ before, events = before ++ [.call tx .commit] ∧
      tx ∉ commitOrder (s.answers before) ∧
      ((s.after before).step (.call tx .commit)).1 = some ⟨tx, .commit, .done⟩) :
    Sound s₀ (⟨call, bench, seen ++ (events ++ [.drop tx]), txs⟩ : Course α) := by
  have hopen := RetryCall.openTx?_of_standsAt hat
  have hdropped : bench.service.store = s.after (events ++ [.drop tx]) := by
    rw [hstore, Store.after_append]
    rfl
  have hdrop : ∀ {s : Store} {t : TxId}, t ∉ commitOrder (s.answers [.drop tx]) :=
    Store.uncommitted_of_not_mem (by simp)
  constructor
  · exact h.consistent
  · rw [Course.store, hdropped, Store.after_append s₀, h.store]
  · rw [Course.store, hdropped]
    exact h.opened_after _
  · intro t ht _
    rw [Course.store, hdropped]
    exact h.closed_dropped events ht
  · simp [hopen]
  · simp [hat]
  · intro hno t ht
    exact h.uncommitted (Store.uncommitted_append (hfailed hno) hdrop) ht
  · intro hyes
    rcases hsucceeded hyes with ⟨before, rfl, hbefore, hdone⟩
    refine ⟨tx, seen ++ before, [.drop tx], h.last, by simp, ?_, ?_⟩
    · rw [Store.after_append, ← h.store]
      exact hdone
    · exact fun t ht => ⟨h.uncommitted hbefore ht, hdrop⟩

-- What the record says of a run is what the run has come to, so there is one case for each way in
-- which work can run.
/-- An attempt runs among others. -/
theorem sound_ran (rules : RetryRules α) (call : RetryCall α) (tally : Tally) {s : Service}
    {w : Work α} (h : Trying s₀ seen txs tx s.store) (honly : w.OnlyAsks)
    (hstands : s.store.Stands tx w.concluded) (company : List (List Event)) :
    Sound s₀ (⟨(call.advanced rules tx (w.concluded.amid tx company s).2 tally).1,
      (call.advanced rules tx (w.concluded.amid tx company s).2 tally).2,
      seen ++ w.concluded.amidSeen tx company s, txs⟩ : Course α) := by
  rcases Work.ran_amid company honly hstands with ⟨hstore, hran⟩
  rw [Work.amidSeen]
  generalize w.concluded.amid tx company s = ran at hstore hran
  rcases ran with ⟨events, progress, s'⟩
  simp only at hstore hran ⊢
  cases hran with
  | @committed before a hevents hbefore hdone =>
      rcases call.attemptEnded_ok rules ⟨s'.drop tx, tally⟩ a with ⟨hstore', hat, hyes⟩
      refine sound_over h (hstore'.trans (by rw [← hstore]; rfl)) hat ?_ ?_
      · intro hno
        rw [RetryCall.advanced, hyes] at hno
        simp at hno
      · exact fun _ => ⟨before, hevents, hbefore, hdone⟩
  | @failed e hnot =>
      rcases call.attemptEnded_error rules ⟨s'.drop tx, tally⟩ e with ⟨hstore', hat, hno⟩
      refine sound_over h (hstore'.trans (by rw [← hstore]; rfl)) hat (fun _ => hnot) ?_
      intro hyes
      rw [RetryCall.advanced, hno] at hyes
      simp at hyes
  | waiting hnot honly' hwork hstands' =>
      rw [Work.Progress.lastSeen, List.append_nil]
      refine sound_open h hstore hnot honly' hstands' ?_
      rw [hwork]
      rfl
  | paused hnot honly' hstands' =>
      rw [Work.Progress.lastSeen, List.append_nil]
      exact sound_open h hstore hnot honly' hstands' rfl
  | crashed hnot =>
      refine sound_over h (by rw [← hstore]; rfl) rfl (fun _ => hnot) ?_
      intro hyes
      simp [RetryCall.advanced, RetryCall.succeeded, RetryCall.value?] at hyes

end Trying

variable {c : Course α}

/-- The open transaction of a call. -/
theorem Sound.trying (h : Sound s₀ c) {tx : TxId} (hopen : c.call.openTx? = some tx) :
    Trying s₀ c.seen c.opened tx c.store where
  consistent := h.consistent
  store := h.store
  opened := h.opened
  closed t ht hne := h.closed t ht fun hc => hne (Option.some.inj (hopen.symm.trans hc)).symm
  last := h.last tx hopen
  failed := h.failed (RetryCall.succeeded_of_openTx hopen)

/-- A call that begins a transaction. -/
theorem Sound.begun (h : Sound s₀ c) (hopen : c.call.openTx? = none)
    (hno : c.call.succeeded = false) :
    Trying s₀ (c.seen ++ [.start]) (c.opened ++ [c.store.start.1]) c.store.start.1
      c.store.start.2 := by
  have hcons : c.store.Consistent := h.store ▸ Store.consistent_after h.consistent c.seen
  have hle : s₀.begun ≤ c.store.begun := h.store ▸ Store.begun_after_le s₀ c.seen
  have hquiet : ∀ t, t ∉ commitOrder ((s₀.after c.seen).answers [.start]) := fun t =>
    Store.uncommitted_of_not_mem (by simp)
  have hcases : ∀ t ∈ c.opened ++ [c.store.start.1], t ∈ c.opened ∨ t = c.store.start.1 := by
    intro t ht
    rwa [List.mem_append, List.mem_singleton] at ht
  constructor
  · exact h.consistent
  · rw [Store.after_append, ← h.store]
    rfl
  · intro t ht
    rcases hcases t ht with hold | rfl
    · exact ⟨(h.opened t hold).1, Nat.le_succ_of_le (h.opened t hold).2⟩
    · exact ⟨Nat.lt_succ_of_le hle, Nat.le_refl _⟩
  · intro t ht hne
    rcases hcases t ht with hold | rfl
    · exact Store.ended_step (h.closed t hold (by simp [hopen])) (h.opened t hold).2 .start
    · exact absurd rfl hne
  · simp
  · intro t ht
    refine Store.uncommitted_append ?_ (hquiet t)
    rcases hcases t ht with hold | rfl
    · exact h.failed hno t hold
    · -- Nobody was answered under a number that was yet to come.
      intro hmem
      rcases exists_answer_of_commitOrder hmem with ⟨a, ha, hatx⟩
      have hknown := Store.tx_le_of_answers h.consistent c.seen a ha
      rw [hatx, ← h.store] at hknown
      exact absurd hknown (Nat.not_succ_le_self c.store.begun)

/-- The call moves on without a transaction and without the store. -/
theorem sound_quiet (h : Sound s₀ c) {call : RetryCall α} {bench : Bench}
    (hopen : c.call.openTx? = none) (hstore : bench.service.store = c.store)
    (hat : call.standsAt? = none) (hsame : call.succeeded = c.call.succeeded) :
    Sound s₀ { c with call, bench } := by
  have hopen' := RetryCall.openTx?_of_standsAt hat
  constructor
  · exact h.consistent
  · exact hstore.trans h.store
  · intro tx htx
    rw [Course.store, hstore]
    exact h.opened tx htx
  · intro tx htx _
    rw [Course.store, hstore]
    exact h.closed tx htx (by simp [hopen])
  · simp [hopen']
  · simp [hat]
  · exact fun hno => h.failed (hsame ▸ hno)
  · exact fun hyes => h.succeeded (hsame ▸ hyes)

/-- Others do something to the store. -/
theorem sound_others (h : Sound s₀ c) (events : List Event) (rules : RetryRules α)
    (scope : Scope) : Sound s₀ (c.step rules scope (.others events)) := by
  cases hat : c.call.standsAt? with
  | some at? =>
      rcases at? with ⟨tx, work⟩
      have hopen : c.call.openTx? = some tx := by
        rw [RetryCall.openTx?_eq, hat]
        rfl
      rcases h.standing tx work hat with ⟨w, honly, hwork, hstands⟩
      have hothers : ∀ e ∈ Event.around (some tx) events, e.tx? ≠ some tx :=
        Event.not_mine_of_around
      have hnot : tx ∉ commitOrder (c.store.answers (Event.around (some tx) events)) :=
        Store.uncommitted_of_not_mem fun hmem => hothers _ hmem rfl
      simp only [step, hopen]
      exact sound_open (h.trying hopen) rfl hnot honly (Store.stands_others hstands hothers)
        (hwork ▸ hat)
  | none =>
      have hopen := RetryCall.openTx?_of_standsAt hat
      have hended : ∀ tx ∈ c.opened, c.store.live.get? tx = none := fun tx htx =>
        h.closed tx htx (by simp [hopen])
      simp only [step]
      set events' := Event.around c.call.openTx? events
      have hstore : (c.bench.service.happen events').store = c.store.after events' := rfl
      constructor
      · exact h.consistent
      · rw [Course.store, hstore, Store.after_append, h.store]
      · intro tx htx
        have := h.opened tx htx
        exact ⟨this.1, Nat.le_trans this.2 (Store.begun_after_le c.store events')⟩
      · intro tx htx _
        exact Store.ended_after (hended tx htx) (h.opened tx htx).2 events'
      · simp [hopen]
      · simp [hat]
      · intro hno tx htx
        refine Store.uncommitted_append (h.failed hno tx htx) ?_
        rw [← h.store]
        exact Store.uncommitted_of_ended (hended tx htx) (h.opened tx htx).2 events'
      · intro hyes
        rcases h.succeeded hyes with ⟨tx, before, later, hlast, hseen, hdone, hrest⟩
        refine ⟨tx, before, later ++ events', hlast, by simp [hseen], hdone, ?_⟩
        intro t ht
        refine ⟨(hrest t ht).1, Store.uncommitted_append (hrest t ht).2 ?_⟩
        have hnow : (((s₀.after before).step (.call tx .commit)).2.after later) = c.store := by
          rw [h.store, hseen, Store.after_append]
          rfl
        rw [hnow]
        exact Store.uncommitted_of_ended (hended t ht) (h.opened t ht).2 events'

/-- The scope fires. -/
theorem sound_cut (h : Sound s₀ c) (rules : RetryRules α) (e : Failure) :
    Sound s₀ (c.cut rules e) := by
  have hquiet : ∀ {call : RetryCall α} {bench : Bench},
      c.call.fire rules e c.bench = (call, bench) → c.call.openTx? = none →
      bench.service.store = c.store → call.standsAt? = none →
      call.succeeded = c.call.succeeded → Sound s₀ (c.cut rules e) := by
    intro call bench hfire hopen hstore hat hsame
    simp only [cut, hfire, seenCut, hopen, List.append_nil]
    exact sound_quiet h hopen hstore hat hsame
  -- The body is dropped where it stands, then its transaction is rolled back.
  have hcutOff : ∀ tx, c.call.openTx? = some tx →
      c.call.fire rules e c.bench = c.call.cutOff rules tx e c.bench →
      Sound s₀ (c.cut rules e) := by
    intro tx hopen hfire
    set s := c.bench.service.abandon tx with hs
    have htrying := h.trying hopen
    have habandoned : s.store = c.store.after [.abandon tx] := rfl
    have hidle : s.store.wait? tx = none := Store.wait?_abandon c.store tx
    have hle : tx ≤ s.store.begun := by
      rw [habandoned]
      exact (htrying.opened_after _ tx htrying.mem).2
    have hrolled := Service.rollback_after s tx hle hidle
    have hnot : tx ∉ commitOrder (c.store.answers (.abandon tx :: s.rollbackSeen tx)) :=
      Store.uncommitted_of_not_mem (by simpa using Service.commit_notMem_rollbackSeen s tx)
    rcases Work.run_conclude_error (α := α) tx e s with ⟨s', hrun, hstore⟩
    rcases c.call.attemptEnded_error rules ⟨s'.drop tx, c.bench.tally⟩ e with ⟨hstore', hat, hno⟩
    have hseen : c.seenCut = (.abandon tx :: s.rollbackSeen tx) ++ [.drop tx] := by
      rw [seenCut, hopen]
      rfl
    simp only [cut, hfire, RetryCall.cutOff, ← hs, hrun, RetryCall.advanced, hseen]
    refine sound_over htrying ?_ hat (fun _ => hnot) ?_
    · rw [hstore', Store.after_cons, ← Store.after_nil (Store.step _ _).2, ← Store.after_cons,
        ← habandoned, ← hrolled, ← hstore]
      rfl
    · intro hyes
      rw [hno] at hyes
      simp at hyes
  cases hphase : c.call.phase with
  | beginning fault =>
      rcases c.call.attemptEnded_error rules c.bench e with ⟨hstore, hat, hno⟩
      have hfire : c.call.fire rules e c.bench = c.call.attemptEnded rules (.error e) c.bench := by
        simp only [RetryCall.fire, hphase]
      refine hquiet hfire (by simp [RetryCall.openTx?, hphase]) hstore hat (hno.trans ?_)
      simp [RetryCall.succeeded, RetryCall.value?, hphase]
  | blocked tx r next =>
      exact hcutOff tx (by simp [RetryCall.openTx?, hphase]) (by simp [RetryCall.fire, hphase])
  | pausing tx millis next =>
      exact hcutOff tx (by simp [RetryCall.openTx?, hphase]) (by simp [RetryCall.fire, hphase])
  | sleeping wait =>
      have hfire : c.call.fire rules e c.bench =
          ({ c.call with phase := .over (.returned (.error e)) }, c.bench) := by
        simp only [RetryCall.fire, hphase]
      refine hquiet hfire (by simp [RetryCall.openTx?, hphase]) rfl rfl ?_
      simp [RetryCall.succeeded, RetryCall.value?, hphase]
  | «over» how =>
      have hfire : c.call.fire rules e c.bench = (c.call, c.bench) := by
        simp only [RetryCall.fire, hphase]
      refine hquiet hfire (by simp [RetryCall.openTx?, hphase]) rfl ?_ rfl
      simp [RetryCall.standsAt?, hphase]

/-- The body goes on with what it stands at. -/
theorem sound_stands (h : Sound s₀ c) (rules : RetryRules α) {tx : TxId} {work : Work α}
    (hat : c.call.standsAt? = some (tx, work)) (company : List (List Event)) :
    let ran := c.call.advanced rules tx (work.amid tx company c.bench.service).2 c.bench.tally
    Sound s₀ ⟨ran.1, ran.2, c.seen ++ work.amidSeen tx company c.bench.service, c.opened⟩ := by
  have hopen : c.call.openTx? = some tx := by
    rw [RetryCall.openTx?_eq, hat]
    rfl
  rcases h.standing tx work hat with ⟨w, honly, rfl, hstands⟩
  exact sound_ran rules c.call c.bench.tally (s := c.bench.service) (h.trying hopen) honly hstands
    company

/-- The call goes on. -/
theorem sound_goOn (h : Sound s₀ c) {rules : RetryRules α} (honly : ∀ n, (rules.body n).OnlyAsks)
    (company : List (List Event)) : Sound s₀ (c.goOn rules company) := by
  have hcons : c.store.Consistent := h.store ▸ Store.consistent_after h.consistent c.seen
  cases hphase : c.call.phase with
  | beginning fault =>
      have hopen : c.call.openTx? = none := by simp [RetryCall.openTx?, hphase]
      have hno : c.call.succeeded = false := by simp [RetryCall.succeeded, RetryCall.value?, hphase]
      cases fault with
      | some fault =>
          rcases c.call.attemptEnded_error rules c.bench (.ofStoreFault fault) with
            ⟨hstore, hat, hno'⟩
          simp only [goOn, RetryCall.resumeAt, hphase, seenNext, newTx, List.append_nil]
          exact sound_quiet h hopen hstore hat (hno'.trans hno.symm)
      | none =>
          have hfresh : c.store.start.2.wait? c.store.start.1 = none := by
            have hlive : c.store.start.2.live.get? c.store.start.1 = some .fresh :=
              (Store.live_start c.store _).trans (if_pos rfl)
            rw [Store.wait?, hlive]
            rfl
          have hran := sound_ran rules { c.call with invoked := c.call.invoked + 1 } c.bench.tally
            (s := c.bench.service.start.2) (h.begun hopen hno) (honly (c.call.invoked + 1))
            (Store.stands_of_idle (Store.consistent_start hcons) (Nat.le_refl _) hfresh _) company
          simp only [goOn, RetryCall.resumeAt, hphase, seenNext, newTx]
          rw [List.append_assoc] at hran
          exact hran
  | blocked tx r next =>
      have hat : c.call.standsAt? = some (tx, .request r next) := by
        simp [RetryCall.standsAt?, hphase]
      have hran := sound_stands h rules hat company
      simp only [goOn, RetryCall.resumeAt, hphase, seenNext, newTx, List.append_nil]
      exact hran
  | pausing tx millis next =>
      have hat : c.call.standsAt? = some (tx, next) := by simp [RetryCall.standsAt?, hphase]
      have hran := sound_stands h rules hat company
      simp only [goOn, RetryCall.resumeAt, hphase, seenNext, newTx, List.append_nil]
      exact hran
  | sleeping wait =>
      rcases RetryCall.attemptFrom_quiet (α := α) c.bench (c.call.attempt + 1) c.call.invoked with
        ⟨hstore, hat, hno⟩
      simp only [goOn, RetryCall.resumeAt, hphase, seenNext, newTx, List.append_nil]
      exact sound_quiet h (by simp [RetryCall.openTx?, hphase]) hstore hat
        (hno.trans (by simp [RetryCall.succeeded, RetryCall.value?, hphase]))
  | «over» how =>
      simp only [goOn, RetryCall.resumeAt, hphase, seenNext, newTx, List.append_nil]
      exact h

/-- The body gives up the row that it waits for. -/
theorem sound_giveUp (h : Sound s₀ c) {instead : Work α} (honly : instead.OnlyAsks) :
    Sound s₀ (c.giveUp instead) := by
  rw [giveUp]
  split
  · rename_i tx r next hphase
    have hopen : c.call.openTx? = some tx := by simp [RetryCall.openTx?, hphase]
    have htrying := h.trying hopen
    have hle := (htrying.opened_after [.abandon tx] tx htrying.mem).2
    refine sound_open htrying rfl (Store.uncommitted_of_not_mem (by simp)) honly ?_ rfl
    refine Store.stands_of_idle ?_ hle (Store.wait?_abandon c.store tx) _
    rw [h.store]
    exact Store.consistent_after (Store.consistent_after h.consistent c.seen) _
  · exact h

/-- The caller drops the call. -/
theorem sound_drop (h : Sound s₀ c) (rules : RetryRules α) (scope : Scope) :
    Sound s₀ (c.step rules scope .drop) := by
  cases hopen : c.call.openTx? with
  | some tx =>
      have hdrop : Sound s₀ (⟨{ c.call with phase := .over .dropped },
          { c.bench with service := c.bench.service.drop tx }, c.seen ++ ([] ++ [.drop tx]),
          c.opened⟩ : Course α) :=
        sound_over (h.trying hopen) rfl rfl (fun _ => Store.uncommitted_of_not_mem (by simp))
          (by simp [RetryCall.succeeded, RetryCall.value?])
      have hnot : ∀ how, c.call.phase ≠ .over how := by
        intro how hphase
        simp [RetryCall.openTx?, hphase] at hopen
      have habandon : c.call.abandon c.bench = ({ c.call with phase := .over .dropped },
          { c.bench with service := c.bench.service.drop tx }) := by
        rw [RetryCall.abandon]
        split
        · rename_i how hphase
          exact absurd hphase (hnot how)
        · simp only [hopen]
      simp only [step, habandon, seenDrop, hopen]
      exact hdrop
  | none =>
      simp only [step, seenDrop, hopen, List.append_nil]
      rw [RetryCall.abandon]
      split
      · exact h
      · rename_i hnot
        simp only [hopen]
        refine sound_quiet h hopen rfl rfl ?_
        rw [RetryCall.succeeded, RetryCall.succeeded, RetryCall.value?, RetryCall.value?]
        split
        · rename_i hphase
          simp at hphase
        · split
          · rename_i hphase
            exact absurd hphase (hnot _)
          · rfl

theorem sound_step (h : Sound s₀ c) {rules : RetryRules α} (honly : ∀ n, (rules.body n).OnlyAsks)
    (scope : Scope) {beat : Beat α} (hbeat : ∀ w, beat = .giveUp w → w.OnlyAsks) :
    Sound s₀ (c.step rules scope beat) := by
  cases beat with
  | others events => exact sound_others h events rules scope
  | poll now limitFirst company =>
      rw [step]
      cases scope.notice? limitFirst now with
      | some e => exact sound_cut h rules e
      | none => exact sound_goOn h honly company
  | giveUp instead => exact sound_giveUp h (hbeat instead rfl)
  | drop => exact sound_drop h rules scope

theorem sound_after (h : Sound s₀ c) {rules : RetryRules α} (honly : ∀ n, (rules.body n).OnlyAsks)
    (scope : Scope) {beats : List (Beat α)} (hbeats : ∀ w, .giveUp w ∈ beats → w.OnlyAsks) :
    Sound s₀ (c.after rules scope beats) := by
  induction beats generalizing c with
  | nil => exact h
  | cons beat rest ih =>
      refine ih (sound_step h honly scope ?_) fun w hw => hbeats w (List.mem_cons_of_mem _ hw)
      exact fun w hbeat => hbeats w (hbeat ▸ List.mem_cons_self)

theorem sound_enter (scope : Scope) (now : Nat) {b : Bench} (hcons : b.service.store.Consistent) :
    Sound b.service.store (enter scope now b : Course α) := by
  -- Nothing has been begun yet, whether the call is over already or about to begin.
  have hfirst : ∀ {call : RetryCall α} {bench : Bench},
      bench.service.store = b.service.store → call.standsAt? = none → call.succeeded = false →
      Sound b.service.store (⟨call, bench, [], []⟩ : Course α) := by
    intro call bench hstore hat hno
    have hopen := RetryCall.openTx?_of_standsAt hat
    constructor
    · exact hcons
    · exact hstore
    · simp
    · simp
    · simp [hopen]
    · simp [hat]
    · simp
    · simp [hno]
  cases hfired : scope.fired? now with
  | some e =>
      simp only [enter, RetryCall.enter, hfired]
      exact hfirst rfl rfl rfl
  | none =>
      simp only [enter, RetryCall.enter, hfired]
      rcases RetryCall.attemptFrom_quiet (α := α) b 0 0 with ⟨hstore, hat, hno⟩
      exact hfirst hstore hat hno

theorem filter_commitOrder_eq_nil {mine : List TxId} {answers : List Answer}
    (h : ∀ tx ∈ mine, tx ∉ commitOrder answers) :
    (commitOrder answers).filter (fun tx => decide (tx ∈ mine)) = [] := by
  rw [List.filter_eq_nil_iff]
  intro tx hcommitted
  simpa using fun hmem => h tx hmem hcommitted

/-- Whatever becomes of a retried call whose body only asks: when it is over, none of its
transactions holds a row or has a wait. If it returned a value, its last transaction committed and
no other one did, and that commit is all that the call has done to the accounts: it added the
deltas that the last run of the body had buffered. Otherwise none of its transactions committed,
and none changed an account. -/
theorem at_most_once {rules : RetryRules α} (honly : ∀ n, (rules.body n).OnlyAsks) (scope : Scope)
    (now : Nat) {b : Bench} (hcons : b.service.store.Consistent) {beats : List (Beat α)}
    (hbeats : ∀ w, .giveUp w ∈ beats → w.OnlyAsks) :
    let s := b.service.store
    let c := (enter scope now b : Course α).after rules scope beats
    c.store = s.after c.seen ∧
      (c.call.isOver = true →
        (∀ tx ∈ c.opened, (∀ row, c.store.locks.holders.get? row ≠ some tx) ∧
          c.store.locks.waits.get? tx = none) ∧
        (∀ a, c.call.value? = some a →
          ∃ tx before later, c.opened.getLast? = some tx ∧
            c.seen = before ++ .call tx .commit :: later ∧
            (commitOrder (s.answers c.seen)).filter (fun t => decide (t ∈ c.opened)) = [tx] ∧
            Posts (Story.buffered (story (s.answers before) tx)) (s.after before).accounts
              (s.after (before ++ [.call tx .commit])).accounts ∧
            s.Spares c.opened before ∧
            (s.after (before ++ [.call tx .commit])).Spares c.opened later) ∧
        (c.call.value? = none →
          (commitOrder (s.answers c.seen)).filter (fun t => decide (t ∈ c.opened)) = [] ∧
            s.Spares c.opened c.seen)) := by
  intro s c
  have hsound : Sound s c := sound_after (sound_enter scope now hcons) honly scope hbeats
  have hcons' : c.store.Consistent := hsound.store ▸ Store.consistent_after hcons c.seen
  refine ⟨hsound.store, fun hover => ⟨?_, ?_, ?_⟩⟩
  · intro tx htx
    have hended := hsound.closed tx htx (by simp [RetryCall.openTx?_of_isOver hover])
    exact ⟨Store.holder_ne_of_ended hcons' hended, Store.waits_of_ended hcons' hended⟩
  · intro a hvalue
    have hyes : c.call.succeeded = true := by rw [RetryCall.succeeded, hvalue, Option.isSome_some]
    rcases hsound.succeeded hyes with ⟨tx, before, later, hlast, hseen, hdone, hrest⟩
    have htx := List.mem_of_getLast? hlast
    have hafter : s.after (before ++ [.call tx .commit]) =
        ((s.after before).step (.call tx .commit)).2 := by
      rw [Store.after_append]
      rfl
    refine ⟨tx, before, later, hlast, hseen, ?_, ?_, ?_, ?_⟩
    · rw [hseen, Store.answers_append, Store.answers, hdone, commitOrder_append,
        commitOrder_append, List.filter_append, List.filter_append,
        filter_commitOrder_eq_nil fun t ht => (hrest t ht).1,
        filter_commitOrder_eq_nil fun t ht => (hrest t ht).2]
      simp [commitOrder, Answer.isCommit, htx]
    · rw [hafter]
      exact Store.posts_of_commit hcons (hsound.opened tx htx).1 hdone
    · exact Store.spares_of_uncommitted fun t ht => (hrest t ht).1
    · rw [hafter]
      exact Store.spares_of_uncommitted fun t ht => (hrest t ht).2
  · intro hnone
    have hfailed := hsound.failed (RetryCall.succeeded_eq_false_iff.2 hnone)
    exact ⟨filter_commitOrder_eq_nil hfailed, Store.spares_of_uncommitted hfailed⟩

/-- Two accounts, and a commit that is to fail. -/
def uneasy : Bench :=
  .ofStore { Store.empty with
    accounts := .ofList [(1, .fresh 1 (.ofUInt64 10)), (2, .fresh 2 .zero)], conflictsDue := 1 }

/-- Three are moved from one account to the other. The answer is the number of the run. -/
def moving : RetryRules Nat where
  backoff := .default
  draw _ := .zero
  isConflict := Failure.isConflict
  body run := do
    Work.update 1 (.ofInt64 (-3))
    Work.update 2 (.ofUInt64 3)
    pure run

/-- Somebody else has the first account, so the body gives it up and pays the second one only. Its
commit fails, and when the body is run again the account is free. -/
def detour : List (Beat Nat) :=
  [.others [.start, .call 1 (.request (.query 1))], .poll 0 false [],
    .giveUp (do Work.update 2 (.ofUInt64 3); pure 0), .poll 1 false [],
    .others [.call 1 .rollback], .poll 20 false [], .poll 20 false []]

theorem at_most_once_detour :
    let s := uneasy.service.store
    let c := (enter .never 0 uneasy : Course Nat).after moving .never detour
    s.Consistent ∧ c.opened = [2, 3] ∧ c.call.value? = some 2 ∧
      (commitOrder (s.answers c.seen)).filter (fun t => decide (t ∈ c.opened)) = [3] ∧
      (∀ row, c.store.locks.holders.get? row ≠ some 2) ∧ c.store.locks.waits.get? 2 = none := by
  intro s c
  have honly : ∀ n, (moving.body n).OnlyAsks := fun n =>
    Work.onlyAsks_bind (Work.onlyAsks_update _ _) fun _ =>
      Work.onlyAsks_bind (Work.onlyAsks_update _ _) fun _ => trivial
  have hbeats : ∀ w, .giveUp w ∈ detour → w.OnlyAsks := by
    intro w hw
    simp only [detour, List.mem_cons, reduceCtorEq, Beat.giveUp.injEq, List.not_mem_nil, or_false,
      false_or] at hw
    rw [hw]
    exact Work.onlyAsks_bind (Work.onlyAsks_update _ _) fun _ => trivial
  have hcons : s.Consistent :=
    Store.consistent_accounts Store.consistent_empty _ 1 (by simp [Store.empty])
  have hopened : c.opened = [2, 3] := by decide +kernel
  have hvalue : c.call.value? = some 2 := by decide +kernel
  have hover : c.call.isOver = true := by decide +kernel
  rcases at_most_once honly .never 0 hcons hbeats with ⟨_, hall⟩
  rcases hall hover with ⟨hgone, hok, _⟩
  rcases hok 2 hvalue with ⟨tx, before, later, hlast, _, hcommit, _⟩
  have htx : tx = 3 := by
    change c.opened.getLast? = some tx at hlast
    rw [hopened] at hlast
    exact (Option.some.inj hlast).symm
  have hmem : 2 ∈ c.opened := by rw [hopened]; simp
  exact ⟨hcons, hopened, hvalue, htx ▸ hcommit, (hgone 2 hmem).1, (hgone 2 hmem).2⟩

end Course

end RowLedger
