import RowLedger.Proofs.Contract
import RowLedger.Proofs.Tasks

/-!
# Contracts are kept

Work that meets a contract meets it in all traffic that the contract speaks of.
A turn of the task itself takes its work and its stage one step further; a turn
of anybody else leaves the record of its transaction and the accounts it has
locked as they are. So when a task returns, what was promised for its end is
true.

A task changes accounts at its commit only. What it has done to an account is
therefore the difference that its commit has made, and this is what the
differences between its turns sum up to (`Traffic.effect`).

## Main definitions

* `Store.AtStage`: A transaction is at a stage.
* `Traffic.share`, `Traffic.effect`: What a task does to an account in a turn
  and in a run.
* `Traffic.effectOf`: The same for an operation, which may have no transaction.
* `Traffic.Kept`: All tasks meet the contract.
* `Traffic.Permits`: A turn is one that the contract speaks of.

## Theorems

* `atStage_step_other`: The others leave the stage alone.
* `meets_moved`: Work that goes on meets the contract from the next stage on.
* `kept_step`, `kept_after`: All tasks meet the contract after a turn and after
  a run.
* `kept_returned`: What was promised for the end is true at the end.
-/

namespace RowLedger

/-- The balance of an account in the finest units. An account that is not there has none. -/
def unitsOf (accounts : Table AccountId Account) (id : AccountId) : Int :=
  match accounts.get? id with
  | none => 0
  | some account => account.balance.units

/-- What the commit of a transaction did to an account. -/
def Stage.effect (stage : Stage) (id : AccountId) : Int :=
  match stage.change with
  | none => 0
  | some (before, after) => unitsOf after id - unitsOf before id

namespace Store

variable {c : Contract} {s : Store} {tx : TxId}

/-- A transaction is at a stage. If it is open, the accounts it has locked are as it has seen
them. -/
inductive AtStage (c : Contract) (s : Store) (tx : TxId) : Stage → Prop where
  | running {o : OpenTx} (seen : Table AccountId Account) (hlive : s.live.get? tx = some o)
      (hsame : c.locked → ∀ row ∈ o.held, s.accounts.get? row = seen.get? row) :
      AtStage c s tx (.running o.idle seen)
  | ended (change : Option (Table AccountId Account × Table AccountId Account))
      (hended : s.live.get? tx = none) : AtStage c s tx (.ended change)

-- Locks keep the accounts as they were seen, but they are no help against an account that is put in
-- the place of another one.
/-- The others leave the stage of a transaction alone. -/
theorem atStage_step_other {stage : Stage} (h : s.Consistent) (hat : s.AtStage c tx stage)
    (hle : tx ≤ s.begun) {e : Event} (he : e.tx? ≠ some tx)
    (hins : c.locked → ∀ id balance, e ≠ .insert id balance) :
    (s.step e).2.AtStage c tx stage := by
  cases hat with
  | @running o seen hlive hsame =>
      have hsame' : c.locked → ∀ row ∈ o.held,
          (s.step e).2.accounts.get? row = seen.get? row := by
        intro hlocked row hrow
        rw [accounts_step_held h hlive he (hins hlocked) hrow]
        exact hsame hlocked row hrow
      rcases live_step_other hle he with hold | hwoken
      · rw [hlive] at hold
        exact .running seen hold hsame'
      · rw [hlive] at hwoken
        exact AtStage.running (o := o.wake) seen hwoken hsame'
  | ended change hended =>
      refine .ended change ?_
      rcases live_step_other hle he with hold | hwoken
      · rw [hold, hended]
      · rw [hwoken, hended]
        rfl

/-- A record that has just been written, with the accounts as they are. -/
theorem atStage_put {t' : OpenTx} {locks : RowLocks} (hidle : t'.blocked = none) :
    (s.put tx t' locks).AtStage c tx (.running t' s.accounts) := by
  have hlive : (s.put tx t' locks).live.get? tx = some t' := by rw [put_live, if_pos rfl]
  have := AtStage.running (c := c) s.accounts hlive fun _ _ _ => rfl
  rwa [OpenTx.idle_of_unblocked hidle] at this

end Store

namespace Work

variable {α : Type} {c : Contract} {s s' : Store} {tx : TxId}

/-- How the stage of a transaction goes with the accounts. -/
def Follows (s s' : Store) (stage stage' : Stage) : Prop :=
  (s'.accounts = s.accounts ∧ stage'.change = stage.change) ∨
    (stage.change = none ∧ stage'.change = some (s.accounts, s'.accounts))

theorem effect_follows {stage stage' : Stage} (h : Follows s s' stage stage') (id : AccountId) :
    stage'.effect id = stage.effect id + (unitsOf s'.accounts id - unitsOf s.accounts id) := by
  rcases h with ⟨hsame, hchange⟩ | ⟨hnone, hchange⟩
  · rw [Stage.effect, Stage.effect, hchange, hsame, Int.sub_self, Int.add_zero]
  · rw [Stage.effect, Stage.effect, hchange, hnone, Int.zero_add]

/-- The next stage of work that goes on. -/
def GoesOn (c : Contract) (s' : Store) (tx : TxId) (work' : Work α) (s : Store) (stage : Stage)
    (post : Except Failure α → Stage → Prop) : Prop :=
  ∃ stage', s'.AtStage c tx stage' ∧ work'.Meets c stage' post ∧ c.accounts s'.accounts ∧
    Follows s s' stage stage'

section Moved

variable {stage : Stage} {post : Except Failure α → Stage → Prop} (h : s.Consistent)
  (haccounts : c.accounts s.accounts) (hat : s.AtStage c tx stage)
include h haccounts hat

-- What the others have done since the last request is in the accounts, of which the contract knows
-- enough; from there on the request is answered as if nobody else were there, or a cycle is broken.
theorem goesOn_answered {r : Request} {next : Except StoreFault Decimal → Work α}
    (hmeets : (Work.request r next).Meets c stage post)
    (hstands : ∀ w, s.wait? tx = some w → w.request = r)
    (hvictims : ∀ reason, (s.ask tx r).1 = .refused reason → reason.isConflict = true → c.victims)
    {answer : Except StoreFault Decimal} (hanswer : (s.ask tx r).1.toAnswer = some answer) :
    GoesOn c (s.ask tx r).2 tx (next answer) s stage post := by
  cases hat with
  | @running o seen hlive hsame =>
      rcases hmeets.2 s.accounts ⟨haccounts, hsame⟩ with ⟨hanswers, hvictim⟩
      have hanswered := Store.answered_ask h hlive fun w hb =>
        hstands w (Store.wait?_eq_some_iff.2 ⟨o, hlive, hb⟩)
      generalize s.ask tx r = result at hanswered hanswer hvictims
      rcases hanswered with hanswered | ⟨heq, _⟩
      · cases hanswered with
        | alone locks =>
            have hidle : (o.idle.alone s.accounts r).2.blocked = none := OpenTx.alone_blocked _ _
            exact ⟨_, Store.atStage_put hidle, hanswers answer hanswer, haccounts,
              Or.inl ⟨rfl, rfl⟩⟩
        | cycle holder locks =>
            have hconflict := hvictims _ rfl rfl
            rw [Reply.toAnswer, Option.some.injEq] at hanswer
            rw [← hanswer]
            exact ⟨_, Store.atStage_put rfl, hvictim hconflict _ rfl, haccounts,
              Or.inl ⟨rfl, rfl⟩⟩
        | waiting => simp [Reply.toAnswer] at hanswer
      · rw [heq] at hanswer
        simp [Reply.toAnswer] at hanswer
  | ended change hended =>
      rw [Store.ask_of_ended hended] at hanswer ⊢
      rw [Reply.toAnswer, Option.some.injEq] at hanswer
      rw [← hanswer]
      exact ⟨_, .ended change hended, hmeets, haccounts, Or.inl ⟨rfl, rfl⟩⟩

theorem goesOn_waiting {r : Request} {next : Except StoreFault Decimal → Work α}
    (hmeets : (Work.request r next).Meets c stage post)
    (hstands : ∀ w, s.wait? tx = some w → w.request = r) (hwait : (s.ask tx r).1 = .waiting) :
    GoesOn c (s.ask tx r).2 tx (.request r next) s stage post := by
  cases hat with
  | @running o seen hlive hsame =>
      have hanswered := Store.answered_ask h hlive fun w hb =>
        hstands w (Store.wait?_eq_some_iff.2 ⟨o, hlive, hb⟩)
      generalize s.ask tx r = result at hanswered hwait
      rcases hanswered with hanswered | ⟨heq, _⟩
      · cases hanswered with
        | alone => exact absurd hwait (OpenTx.alone_ne_waiting _ _)
        | cycle => simp at hwait
        | waiting locks =>
            -- The record is the same as before, but for the call that waits.
            have hput : (s.put tx { o with blocked := some ⟨r, false⟩ } locks).live.get? tx =
                some { o with blocked := some ⟨r, false⟩ } := by
              rw [Store.put_live, if_pos rfl]
            exact ⟨_, Store.AtStage.running seen hput hsame, hmeets, haccounts, Or.inl ⟨rfl, rfl⟩⟩
      · rw [heq]
        exact ⟨_, .running seen hlive hsame, hmeets, haccounts, Or.inl ⟨rfl, rfl⟩⟩
  | ended change hended =>
      rw [Store.ask_of_ended hended] at hwait
      simp at hwait

omit h in
theorem goesOn_committed {next : Except StoreFault Unit → Work α}
    (hmeets : (Work.commit next).Meets c stage post)
    (hconflicts : s.conflictsDue ≠ 0 → c.conflicts) :
    GoesOn c (s.commit tx).2 tx (next ((s.commit tx).1.mapError Refusal.toFault)) s stage post := by
  cases hat with
  | @running o seen hlive hsame =>
      rcases hmeets s.accounts ⟨haccounts, hsame⟩ with ⟨hconflict, hrejected, happlied⟩
      have hended := Store.ended_release s tx
      have hsame' := Store.release_accounts s tx
      have hend := Store.committed hlive
      generalize s.commit tx = result at hend
      cases hend with
      | conflict hdue =>
          have hallowed := hconflicts (by rw [hdue]; exact Nat.succ_ne_zero _)
          refine ⟨_, .ended none hended, hconflict hallowed _ rfl, ?_, Or.inl ⟨hsame', rfl⟩⟩
          exact hsame'.symm ▸ haccounts
      | rejected hdue hall =>
          refine ⟨_, .ended none hended, hrejected _ hall, ?_, Or.inl ⟨hsame', rfl⟩⟩
          exact hsame'.symm ▸ haccounts
      | @applied accounts' hdue hall =>
          rcases happlied accounts' hall with ⟨hgood, hnext⟩
          exact ⟨_, .ended (some (s.accounts, accounts')) hended, hnext, hgood, Or.inr ⟨rfl, rfl⟩⟩
  | ended change hended =>
      rw [Store.commit_of_ended hended]
      exact ⟨_, .ended change hended, hmeets, haccounts, Or.inl ⟨rfl, rfl⟩⟩

omit h in
theorem goesOn_rolledBack {next : Except StoreFault Unit → Work α}
    (hmeets : (Work.rollback next).Meets c stage post) :
    GoesOn c (s.release tx) tx (next (.ok ())) s stage post := by
  have hended := Store.ended_release s tx
  have hsame := Store.release_accounts s tx
  cases hat with
  | running seen hlive =>
      exact ⟨_, .ended none hended, hmeets, hsame.symm ▸ haccounts, Or.inl ⟨hsame, rfl⟩⟩
  | ended change =>
      exact ⟨_, .ended change hended, hmeets, hsame.symm ▸ haccounts, Or.inl ⟨hsame, rfl⟩⟩

/-- Work that goes on meets the contract from the next stage on. -/
theorem meets_moved {work work' : Work α} (hmeets : work.Meets c stage post)
    (hstands : ∀ r next, work = .request r next → ∀ w, s.wait? tx = some w → w.request = r)
    (hvictims : ∀ r next reason, work = .request r next → (s.ask tx r).1 = .refused reason →
      reason.isConflict = true → c.victims)
    (hconflicts : s.conflictsDue ≠ 0 → c.conflicts) (hmoved : work.Moved tx s (work', s')) :
    GoesOn c s' tx work' s stage post := by
  cases hmoved with
  | answered hanswer =>
      exact goesOn_answered h haccounts hat hmeets (hstands _ _ rfl)
        (fun reason => hvictims _ _ reason rfl) hanswer
  | waiting hwait => exact goesOn_waiting h haccounts hat hmeets (hstands _ _ rfl) hwait
  | committed => exact goesOn_committed haccounts hat hmeets hconflicts
  | rolledBack => exact goesOn_rolledBack haccounts hat hmeets
  | paused => exact ⟨stage, hat, hmeets, haccounts, Or.inl ⟨rfl, rfl⟩⟩
  | told => exact ⟨stage, hat, hmeets, haccounts, Or.inl ⟨rfl, rfl⟩⟩
  | noted => exact ⟨stage, hat, hmeets, haccounts, Or.inl ⟨rfl, rfl⟩⟩
  | ended => exact ⟨stage, hat, hmeets, haccounts, Or.inl ⟨rfl, rfl⟩⟩
  | crashed => exact ⟨stage, hat, hmeets, haccounts, Or.inl ⟨rfl, rfl⟩⟩

end Moved

end Work

/-- The turn is one in which the task of a transaction goes on. -/
def Turn.isOf {ι : Type} : Turn ι → TxId → Bool
  | .advance tx, other => decide (tx = other)
  | _, _ => false

namespace Traffic

variable {ι : Type} (program : ι → Operation)

/-- What the task of a transaction does to an account in a turn. -/
def share (t : Traffic ι) (turn : Turn ι) (tx : TxId) (id : AccountId) : Int :=
  if turn.isOf tx then
    unitsOf (t.step program turn).2.store.accounts id - unitsOf t.store.accounts id
  else 0

/-- What the task of a transaction does to an account in a run. -/
def effect (t : Traffic ι) : List (Turn ι) → TxId → AccountId → Int
  | [], _, _ => 0
  | turn :: rest, tx, id =>
    t.share program turn tx id + (t.step program turn).2.effect rest tx id

/-- What an operation does to an account in a run. One that has no transaction does nothing. -/
def effectOf (t : Traffic ι) (turns : List (Turn ι)) : Option TxId → AccountId → Int
  | none, _ => 0
  | some tx, id => t.effect program turns tx id

/-- All tasks meet the contract, from the stages on at which they are. What a task has done to the
accounts so far is what its commit has done, if it has come to that. -/
structure Kept (c : Contract) (post : ι → Except Failure Unit → Stage → Prop)
    (done : TxId → AccountId → Int) (t : Traffic ι) : Prop where
  sound : t.Sound
  accounts : c.accounts t.store.accounts
  meets : ∀ tx task, t.tasks.get? tx = some task → ∃ stage, t.store.AtStage c tx stage ∧
    task.work.Meets c stage (post task.label) ∧ ∀ id, done tx id = stage.effect id
  unborn : ∀ tx, t.store.begun < tx → ∀ id, done tx id = 0

/-- A turn is one that the contract speaks of. -/
structure Permits (c : Contract) (post : ι → Except Failure Unit → Stage → Prop) (t : Traffic ι)
    (turn : Turn ι) : Prop where
  launched : ∀ label body, turn = .launch label → program label = .inTransaction body →
    body.Meets c (.running .fresh t.store.accounts) (post label)
  outside : ∀ e, turn = .event e → c.accounts (t.store.step e).2.accounts ∧
    (c.locked → ∀ id balance, e ≠ .insert id balance)
  victims : ∀ tx task r next reason, t.tasks.get? tx = some task → task.work = .request r next →
    (t.store.ask tx r).1 = .refused reason → reason.isConflict = true → c.victims
  conflicts : t.store.conflictsDue ≠ 0 → c.conflicts

/-- All turns of a run are such turns. -/
def PermitsAll (c : Contract) (post : ι → Except Failure Unit → Stage → Prop) (t : Traffic ι) :
    List (Turn ι) → Prop
  | [] => True
  | turn :: rest => Permits program c post t turn ∧
    (t.step program turn).2.PermitsAll c post rest

variable {program} {c : Contract} {post : ι → Except Failure Unit → Stage → Prop}
  {done : TxId → AccountId → Int} {t : Traffic ι} {turn : Turn ι}

/-- As long as there is no task, there is nothing to be kept but what is true of the accounts. -/
theorem kept_ofStore {s : Store} (h : s.Consistent) (haccounts : c.accounts s.accounts) :
    Kept c post (fun _ _ => 0) (ofStore s) where
  sound := sound_ofStore h
  accounts := haccounts
  meets := by simp [ofStore]
  unborn := fun _ _ _ => rfl

theorem share_of_ne {tx : TxId} (htx : turn ≠ .advance tx) (id : AccountId) :
    t.share program turn tx id = 0 := by
  rw [share, if_neg]
  intro hof
  cases turn with
  | advance other =>
      rw [Turn.isOf, decide_eq_true_eq] at hof
      exact htx (hof ▸ rfl)
  | _ => simp [Turn.isOf] at hof

theorem share_advance (tx : TxId) (id : AccountId) : t.share program (.advance tx) tx id =
    unitsOf (t.step program (.advance tx)).2.store.accounts id - unitsOf t.store.accounts id := by
  rw [share, if_pos]
  rw [Turn.isOf, decide_eq_true_eq]

theorem share_of_same {tx : TxId}
    (hsame : (t.step program turn).2.store.accounts = t.store.accounts) (id : AccountId) :
    t.share program turn tx id = 0 := by
  rw [share, hsame, Int.sub_self]
  split
  · rfl
  · rfl

/-- A transaction that belongs to no task has no share. -/
theorem share_of_gone {tx : TxId} (hgone : t.tasks.get? tx = none) (id : AccountId) :
    t.share program turn tx id = 0 := by
  by_cases htx : turn = .advance tx
  · refine share_of_same ?_ id
    rw [htx, step, hgone]
  · exact share_of_ne htx id

/-- A task that is gone does nothing any more. -/
theorem effect_of_gone (h : t.Sound) {tx : TxId} (hle : tx ≤ t.store.begun)
    (hgone : t.tasks.get? tx = none) (turns : List (Turn ι)) (id : AccountId) :
    t.effect program turns tx id = 0 := by
  induction turns generalizing t with
  | nil => rfl
  | cons turn rest ih =>
      have hturned := turned program h.plan turn
      have hnext := gone_turned hturned hle hgone
      have hle' := Nat.le_trans hle (begun_turned_le h hturned)
      rw [effect, share_of_gone hgone, ih (sound_step h turn) hle' hnext, Int.zero_add]

/-- The event behind a turn of others leaves a task at its stage. -/
theorem atStage_turned_other (h : t.Sound) (hpermits : Permits program c post t turn) {tx : TxId}
    {task : Task ι} (htask : t.tasks.get? tx = some task) {stage : Stage}
    (hat : t.store.AtStage c tx stage) (hadvance : turn ≠ .advance tx) (hcut : turn ≠ .cut tx) :
    (t.step program turn).2.store.AtStage c tx stage := by
  rcases turned_store h (turned program h.plan turn) with hsame | ⟨e, hstep, hbehind⟩
  · rw [hsame]
    exact hat
  · rw [hstep]
    have hother := hbehind.tx?_ne htask hadvance hcut
    refine Store.atStage_step_other h.consistent hat (h.begun tx task htask) hother ?_
    cases hbehind with
    | outside => exact (hpermits.outside e rfl).2
    | opening => exact fun _ _ _ => by simp
    | going _ htx =>
        rintro _ id balance rfl
        simp [Event.tx?] at htx
    | leaving => exact fun _ _ _ => by simp

section Step

variable (h : Kept c post done t) (hpermits : Permits program c post t turn)
include h hpermits

/-- The work of a task that has gone on meets the contract. -/
theorem goesOn_task {tx : TxId} {task : Task ι} {work : Work Unit} {s' : Store}
    (htask : t.tasks.get? tx = some task) (hmoved : task.work.Moved tx t.store (work, s')) :
    ∃ stage, (∀ id, done tx id = stage.effect id) ∧
      Work.GoesOn c s' tx work t.store stage (post task.label) := by
  rcases h.meets tx task htask with ⟨stage, hat, hmeets, hdone⟩
  refine ⟨stage, hdone, ?_⟩
  refine Work.meets_moved h.sound.consistent h.accounts hat hmeets ?_ ?_ hpermits.conflicts hmoved
  · exact fun r next hwork => h.sound.stands htask hwork
  · exact fun r next reason hwork => hpermits.victims tx task r next reason htask hwork

theorem accounts_turned : c.accounts (t.step program turn).2.store.accounts := by
  have hturned := turned program h.sound.plan turn
  generalize t.step program turn = result at hturned
  have hclosed : ∀ tx, c.accounts (t.close tx).store.accounts := by
    intro tx
    rw [close, store, Service.drop, Store.release_accounts]
    exact h.accounts
  cases hturned with
  | nothing => exact h.accounts
  | happened _ hstore => exact hstore ▸ (hpermits.outside _ rfl).1
  | settled => exact h.accounts
  | launched _ hstore => exact hstore ▸ h.accounts
  | moved htask hmoved =>
      rcases goesOn_task h hpermits htask hmoved with ⟨_, _, _, _, _, haccounts, _⟩
      exact haccounts
  | returned => exact hclosed _
  | crashed => exact hclosed _
  | cut => exact hclosed _

/-- All tasks meet the contract after a turn that it speaks of. -/
theorem kept_step :
    Kept c post (fun tx id => done tx id + t.share program turn tx id)
      (t.step program turn).2 where
  sound := sound_step h.sound turn
  accounts := accounts_turned h hpermits
  meets tx task' htask' := by
    have hafter := taskTurned (turned program h.sound.plan turn) htask'
    have hother : ∀ {task}, t.tasks.get? tx = some task → turn ≠ .advance tx → turn ≠ .cut tx →
        ∃ stage, (t.step program turn).2.store.AtStage c tx stage ∧
          task.work.Meets c stage (post task.label) ∧
          ∀ id, done tx id + t.share program turn tx id = stage.effect id := by
      intro task htask hadvance hcut
      rcases h.meets tx task htask with ⟨stage, hat, hmeets, hdone⟩
      refine ⟨stage, atStage_turned_other h.sound hpermits htask hat hadvance hcut, hmeets, ?_⟩
      intro id
      rw [share_of_ne hadvance, Int.add_zero, hdone]
    generalize hresult : (t.step program turn).2 = t' at hafter
    cases hafter with
    | still _ htask =>
        rcases h.meets tx task' htask with ⟨stage, hat, hmeets, hdone⟩
        refine ⟨stage, hat, hmeets, ?_⟩
        intro id
        rw [share_of_same (by rw [hresult]), Int.add_zero, hdone]
    | apart htask hadvance hcut => exact hresult ▸ hother htask hadvance hcut
    | @launched label body _ hprogram hstore htx hnew =>
        have hunborn := h.unborn tx (htx ▸ Nat.lt_succ_self _)
        have hlive : t'.store.live.get? tx = some .fresh := by
          rw [hstore, htx, Store.start, Table.get?_insert, if_pos rfl]
        have hseen : t'.store.accounts = t.store.accounts := by rw [hstore]; rfl
        refine ⟨_, .running t.store.accounts hlive fun _ _ _ => by rw [hseen], ?_, ?_⟩
        · rw [hnew]
          exact hpermits.launched label body rfl hprogram
        · intro id
          rw [hunborn, share_of_ne (by simp), Int.zero_add]
          rfl
    | @moved task work _ htask hmoved hwork =>
        rcases goesOn_task h hpermits htask hmoved with
          ⟨stage, hdone, stage', hat, hmeets, _, hfollows⟩
        refine ⟨stage', hat, hwork ▸ hmeets, ?_⟩
        intro id
        rw [Work.effect_follows hfollows, hdone, share_advance, hresult]
  -- A number that is still unused has been unused before.
  unborn tx hlt id := by
    have hle := begun_turned_le h.sound (turned program h.sound.plan turn)
    have hlt' : t.store.begun < tx := Nat.lt_of_le_of_lt hle hlt
    have hgone : t.tasks.get? tx = none := by
      cases htask : t.tasks.get? tx with
      | none => rfl
      | some task => exact absurd (h.sound.begun tx task htask) (Nat.not_le.2 hlt')
    rw [h.unborn tx hlt', share_of_gone hgone, Int.add_zero]

omit hpermits in
/-- What was promised for the end of a task is true when it returns. -/
theorem returned_step {label : ι} {tx : TxId} {outcome : Except Failure Unit}
    (hreport : .returned label (some tx) outcome ∈ (t.step program turn).1) :
    ∃ stage, post label outcome stage ∧ (∀ id, done tx id = stage.effect id) ∧
      (∀ id, t.share program turn tx id = 0) ∧ tx ≤ (t.step program turn).2.store.begun ∧
      (t.step program turn).2.tasks.get? tx = none := by
  have hturned := turned program h.sound.plan turn
  have hshare : (t.step program turn).2.store.accounts = t.store.accounts →
      ∀ id, t.share program turn tx id = 0 := fun hsame => share_of_same hsame
  generalize t.step program turn = result at hturned hreport hshare
  cases hturned with
  | nothing => simp at hreport
  | @happened e => simp at hreport
  | settled => simp at hreport
  | launched => simp at hreport
  | moved => simp at hreport
  | @returned tx' task outcome' htask hwork =>
      simp only [List.mem_singleton, Report.returned.injEq, Option.some.injEq] at hreport
      rcases hreport with ⟨rfl, rfl, rfl⟩
      rcases h.meets tx task htask with ⟨stage, _, hmeets, hdone⟩
      rw [hwork] at hmeets
      refine ⟨stage, hmeets, hdone, hshare (Store.release_accounts _ _), ?_, ?_⟩
      · rw [close, store, Service.drop, Store.release_begun]
        exact h.sound.begun tx task htask
      · rw [close, Table.get?_erase, if_pos rfl]
  | crashed => simp at hreport
  | cut => simp at hreport

end Step

/-- All tasks meet the contract after a run that it speaks of. -/
theorem kept_after (turns : List (Turn ι)) (h : Kept c post done t)
    (hall : t.PermitsAll program c post turns) :
    Kept c post (fun tx id => done tx id + t.effect program turns tx id)
      (t.after program turns) := by
  induction turns generalizing done t with
  | nil =>
      simp only [effect, Int.add_zero]
      exact h
  | cons turn rest ih =>
      have := ih (kept_step h hall.1) hall.2
      simp only [Int.add_assoc] at this
      exact this

-- Induction on the run. If the task returns later, its turns until then add to what it has done; if
-- it returns now, it is gone and its later turns add nothing.
/-- What was promised for the end of a task is true when it returns, and all that it has done to
the accounts is what its commit has done. -/
theorem kept_returned (turns : List (Turn ι)) (h : Kept c post done t)
    (hall : t.PermitsAll program c post turns) {label : ι} {tx : TxId}
    {outcome : Except Failure Unit}
    (hreport : .returned label (some tx) outcome ∈ t.reports program turns) :
    ∃ stage, post label outcome stage ∧
      ∀ id, done tx id + t.effect program turns tx id = stage.effect id := by
  induction turns generalizing done t with
  | nil => simp [reports] at hreport
  | cons turn rest ih =>
      rw [reports, List.mem_append] at hreport
      rcases hreport with hfirst | hlater
      · rcases returned_step h hfirst with ⟨stage, hpost, hdone, hshare, hle, hgone⟩
        refine ⟨stage, hpost, ?_⟩
        intro id
        rw [effect, hshare, effect_of_gone (sound_step h.sound turn) hle hgone, Int.add_zero,
          Int.add_zero, hdone]
      · rcases ih (kept_step h hall.1) hall.2 hlater with ⟨stage, hpost, hdone⟩
        refine ⟨stage, hpost, ?_⟩
        intro id
        rw [effect, ← Int.add_assoc, hdone]

/-- A report without a transaction is that of an operation that needs none. -/
theorem settled_of_report (h : t.Sound) {turns : List (Turn ι)} {label : ι}
    {outcome : Except Failure Unit}
    (hreport : .returned label none outcome ∈ t.reports program turns) :
    program label = .settled outcome := by
  induction turns generalizing t with
  | nil => simp [reports] at hreport
  | cons turn rest ih =>
      rw [reports, List.mem_append] at hreport
      rcases hreport with hfirst | hlater
      · have hturned := turned program h.plan turn
        generalize t.step program turn = result at hturned hfirst
        cases hturned with
        | settled hprogram =>
            simp only [List.mem_singleton, Report.returned.injEq] at hfirst
            rcases hfirst with ⟨rfl, _, rfl⟩
            exact hprogram
        | _ => simp at hfirst
      · exact ih (sound_step h turn) hlater

end Traffic

end RowLedger
