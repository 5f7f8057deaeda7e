import RowLedger.Proofs.Serial

/-!
# Stories told again

A chain of stories can be told again, one story after another, each in a
transaction of its own. With nobody else around a request is answered at once,
as if its transaction were alone, so the story that is told is the one that was
told before, and its end makes the same accounts of the ones it began with.
Put together with the chain that every run is, this is serializability: the
transactions that committed might as well have come one after another.

## Main definitions

* `Store.Quiet`: No transaction is open and no conflict is due.
* `Store.Lone`: One transaction is open.

## Theorems

* `lone_callAll`: A lone transaction is told what it is told alone.
* `lone_commit`: Its commit succeeds if its deltas can be applied.
* `retell_ended`, `retellAll_chain`: A chain of stories can be told again.
* `commits_serialize`: Every run is as good as its commits in their order.
-/

namespace RowLedger

namespace Store

/-- No transaction is open and no conflict is due. -/
structure Quiet (s : Store) : Prop where
  consistent : s.Consistent
  nobody : ∀ tx, s.live.get? tx = none
  nothing_due : s.conflictsDue = 0

/-- One transaction is open, does not wait, and no conflict is due. -/
structure Lone (s : Store) (tx : TxId) (t : OpenTx) : Prop where
  consistent : s.Consistent
  live : s.live.get? tx = some t
  idle : t.blocked = none
  nobody : ∀ other, other ≠ tx → s.live.get? other = none
  nothing_due : s.conflictsDue = 0

variable {s : Store} {tx : TxId} {t : OpenTx}

theorem callAll_cons (s : Store) (tx : TxId) (c : Call) (rest : List Call) :
    s.callAll tx (c :: rest) =
      ((s.call tx c).1 :: ((s.call tx c).2.callAll tx rest).1,
        ((s.call tx c).2.callAll tx rest).2) := rfl

theorem callAll_append (s : Store) (tx : TxId) (first second : List Call) :
    s.callAll tx (first ++ second) =
      ((s.callAll tx first).1 ++ ((s.callAll tx first).2.callAll tx second).1,
        ((s.callAll tx first).2.callAll tx second).2) := by
  induction first generalizing s with
  | nil => rfl
  | cons c rest ih =>
      rw [List.cons_append, callAll_cons, ih, callAll_cons]
      rfl

theorem lone_start (h : s.Quiet) : s.start.2.Lone s.start.1 .fresh where
  consistent := consistent_start h.consistent
  live := by rw [start, Table.get?_insert, if_pos rfl]
  idle := rfl
  nobody other hne := by
    rw [start, Table.get?_insert, if_neg (fun hc => hne hc.symm)]
    exact h.nobody other
  nothing_due := h.nothing_due

/-- A lone transaction goes on alone. -/
theorem lone_put (h : s.Lone tx t) {t' : OpenTx} {locks : RowLocks}
    (hcons : (s.put tx t' locks).Consistent) (hidle : t'.blocked = none) :
    (s.put tx t' locks).Lone tx t' where
  consistent := hcons
  live := by rw [put_live, if_pos rfl]
  idle := hidle
  nobody other hne := by
    rw [put_live, if_neg (fun hc => hne hc.symm)]
    exact h.nobody other hne
  nothing_due := h.nothing_due

-- The holder of the row would have to be the transaction itself.
/-- A row that a lone transaction does not hold is free. -/
theorem lone_free (h : s.Lone tx t) {row : AccountId} (hnew : row ∉ t.held) :
    s.locks.holders.get? row = none := by
  cases hholder : s.locks.holders.get? row with
  | none => rfl
  | some holder =>
      rcases (h.consistent.holder_iff _ _).1 hholder with ⟨t', hlive', _⟩
      by_cases heq : holder = tx
      · exact absurd (heq ▸ hholder) (h.consistent.holder_ne h.live hnew)
      · rw [h.nobody holder heq] at hlive'
        simp at hlive'

/-- What a lone transaction finds when it looks at a new row. -/
theorem lone_examined (h : s.Lone tx t) {r : Request} (hnew : r.row ∉ t.held) :
    ∃ locks, s.examine tx t r =
      ((t.alone s.accounts r).1, s.put tx (t.alone s.accounts r).2 locks) := by
  have hidle := OpenTx.idle_of_unblocked h.idle
  have hlook := examined s tx t r
  generalize s.examine tx t r = result at hlook
  cases hlook with
  | absent habsent =>
      refine ⟨s.locks.stopWaiting tx, ?_⟩
      rw [OpenTx.alone, if_neg hnew, habsent, hidle]
  | granted haccount =>
      refine ⟨s.locks.take tx r.row, ?_⟩
      rw [OpenTx.alone, if_neg hnew, haccount, hidle]
  | cycle _ hholder =>
      rw [lone_free h hnew] at hholder
      simp at hholder
  | waiting _ hholder =>
      rw [lone_free h hnew] at hholder
      simp at hholder

/-- With nobody else around a request is answered at once. -/
theorem lone_request (h : s.Lone tx t) (r : Request) :
    (s.request tx r).1 = (t.alone s.accounts r).1 ∧
      (s.request tx r).2.Lone tx (t.alone s.accounts r).2 ∧
      (s.request tx r).2.accounts = s.accounts := by
  have hblocked : (t.alone s.accounts r).2.blocked = none := by
    rw [OpenTx.alone_blocked, h.idle]
  rw [request, h.live]
  by_cases hheld : r.row ∈ t.held
  · have halone : t.serve (s.accounts.get? r.row) r = t.alone s.accounts r := by
      rw [OpenTx.alone, if_pos hheld]
    have hcons := consistent_served h.consistent h.live h.idle r hheld (s.accounts.get? r.row)
    rw [halone] at hcons
    simp only [if_pos hheld, halone]
    exact ⟨trivial, lone_put h hcons hblocked, rfl⟩
  · have hcons := consistent_examined h.consistent h.live hheld (examined s tx t r)
    rcases lone_examined h hheld with ⟨locks, heq⟩
    rw [heq] at hcons
    simp only [if_neg hheld, heq]
    exact ⟨trivial, lone_put h hcons hblocked, rfl⟩

/-- A lone transaction is told what it is told alone. -/
theorem lone_callAll (h : s.Lone tx t) (rs : List Request) :
    (s.callAll tx (rs.map .request)).1 = (t.aloneAll s.accounts rs).1.map .replied ∧
      (s.callAll tx (rs.map .request)).2.Lone tx (t.aloneAll s.accounts rs).2 ∧
      (s.callAll tx (rs.map .request)).2.accounts = s.accounts := by
  induction rs generalizing s t with
  | nil => exact ⟨rfl, h, rfl⟩
  | cons r rest ih =>
      rcases lone_request h r with ⟨hreply, hnext, haccounts⟩
      rcases ih hnext with ⟨hreplies, hlast, hsame⟩
      rw [haccounts] at hreplies hlast hsame
      rw [List.map_cons, callAll_cons, OpenTx.aloneAll_cons, List.map_cons]
      refine ⟨?_, hlast, hsame⟩
      rw [← hreplies, ← hreply]
      rfl

/-- The commit of a lone transaction succeeds if its deltas can be applied. -/
theorem lone_commit (h : s.Lone tx t) {accounts : Table AccountId Account}
    (hall : applyAll s.accounts t.pending.entries = .ok accounts) :
    (s.call tx .commit).1 = .done ∧ (s.call tx .commit).2.Quiet ∧
      (s.call tx .commit).2.accounts = accounts := by
  have hend := committed h.live
  have hcons := consistent_committed h.consistent h.live hend
  rw [call]
  generalize s.commit tx = result at hend hcons
  cases hend with
  | conflict hdue =>
      rw [h.nothing_due] at hdue
      simp at hdue
  | rejected _ hnone =>
      rw [hall] at hnone
      simp at hnone
  | applied _ hsome =>
      rw [hall, Except.ok.injEq] at hsome
      refine ⟨rfl, ⟨hcons, ?_, ?_⟩, hsome.symm⟩
      · intro other
        change (s.release tx).live.get? other = none
        rw [live_release h.live]
        by_cases heq : tx = other
        · rw [if_pos heq]
        · rw [if_neg heq, h.nobody other (fun hc => heq hc.symm)]
          rfl
      · exact (release_conflictsDue s tx).trans h.nothing_due

/-- To a transaction that has ended the store is deaf. -/
theorem callAll_of_ended (hended : s.live.get? tx = none) (calls : List Call) :
    s.callAll tx calls = (calls.map Call.whenEnded, s) := by
  induction calls with
  | nil => rfl
  | cons c rest ih =>
      have hcall : s.call tx c = (c.whenEnded, s) := by
        cases c with
        | request r =>
            rw [call, request, hended]
            rfl
        | commit =>
            rw [call, commit_of_ended hended]
            rfl
        | rollback =>
            rw [call, release_of_ended hended]
            rfl
      rw [callAll_cons, hcall, ih, List.map_cons]

/-- A story that is true of the accounts can be told again. -/
theorem retell_ended (h : s.Quiet) {accounts : Table AccountId Account} {st : Story}
    (hst : Story.Ended s.accounts accounts st) :
    (s.retell (st.map (·.1))).1 = st.map (·.2) ∧ (s.retell (st.map (·.1))).2.Quiet ∧
      (s.retell (st.map (·.1))).2.accounts = accounts := by
  rcases hst with ⟨t, before, late, ⟨dialog, rfl, htold⟩, hall, rfl⟩
  have hcalls : (dialog.map fun d => (Call.request d.1, Outcome.replied d.2)).map (·.1) =
      (dialog.map (·.1)).map .request := by
    rw [List.map_map, List.map_map]
    rfl
  have houtcomes : (dialog.map fun d => (Call.request d.1, Outcome.replied d.2)).map (·.2) =
      (dialog.map (·.2)).map .replied := by
    rw [List.map_map, List.map_map]
    rfl
  have hlate : (late.map fun c => (c, c.whenEnded)).map (·.1) = late := by
    rw [List.map_map]
    exact List.map_id late
  have hdeaf : (late.map fun c => (c, c.whenEnded)).map (·.2) = late.map Call.whenEnded := by
    rw [List.map_map]
    rfl
  rcases lone_callAll (lone_start h) (dialog.map (·.1)) with ⟨hreplies, hlone, hsame⟩
  rw [show s.start.2.accounts = s.accounts from rfl, htold] at hreplies hlone
  rcases lone_commit hlone (hsame ▸ hall) with ⟨hdone, hquiet, haccounts⟩
  have hend := callAll_of_ended (hquiet.nobody s.start.1) late
  rw [List.map_append, List.map_append, List.map_cons, List.map_cons, hcalls, houtcomes, hlate,
    hdeaf, retell]
  simp only [callAll_append, callAll_cons, hend, hreplies, hdone]
  exact ⟨trivial, hquiet, haccounts⟩

/-- A chain of stories can be told again. -/
theorem retellAll_chain (h : s.Quiet) {accounts : Table AccountId Account} {sts : List Story}
    (hchain : Story.Chain s.accounts sts accounts) :
    (s.retellAll (sts.map fun st => st.map (·.1))).1 = sts.map (fun st => st.map (·.2)) ∧
      (s.retellAll (sts.map fun st => st.map (·.1))).2.accounts = accounts := by
  induction sts generalizing s with
  | nil => exact ⟨rfl, hchain⟩
  | cons st rest ih =>
      rcases hchain with ⟨next, hfirst, hrest⟩
      rcases retell_ended h hfirst with ⟨houtcomes, hquiet, haccounts⟩
      rcases ih hquiet (haccounts ▸ hrest) with ⟨hmore, hlast⟩
      refine ⟨?_, hlast⟩
      rw [List.map_cons, List.map_cons, ← houtcomes, ← hmore]
      rfl

theorem quiet_ofAccounts (accounts : Table AccountId Account) : (ofAccounts accounts).Quiet :=
  ⟨consistent_ofAccounts accounts, by simp [ofAccounts, empty], rfl⟩

/-- Every run is as good as its commits in their order. Told again one after another in a store
with the same first accounts, the transactions that committed are told what they were told in the
run, and the accounts come out the same. -/
theorem commits_serialize (accounts : Table AccountId Account) (events : List Event)
    (hins : ∀ id balance, Event.insert id balance ∉ events) :
    let run := (ofAccounts accounts).answers events
    let stories := (commitOrder run).map (story run)
    let again := (ofAccounts accounts).retellAll (stories.map fun st => st.map (·.1))
    again.1 = stories.map (fun st => st.map (·.2)) ∧
      again.2.accounts = ((ofAccounts accounts).after events).accounts := by
  intro run stories again
  have hserial := serial_after (serial_ofAccounts accounts) events hins
  rw [List.nil_append] at hserial
  exact retellAll_chain (quiet_ofAccounts accounts) hserial.chain

/-- One account that holds ten. -/
def oneAccount : Table AccountId Account := .ofList [(1, .fresh 1 (.ofUInt64 10))]

/-- The second transaction waits for the row of the first one. The first one that commits is told
again first. -/
def handover : List Event :=
  [.start, .start, .call 2 (.request (.update 1 (.ofInt64 (-3)))), .call 1 (.request (.query 1)),
    .call 2 (.request (.query 1)), .call 2 .commit, .poll 1, .call 2 .rollback, .call 1 .commit]

theorem commits_serialize_handover :
    let run := (ofAccounts oneAccount).answers handover
    (∀ id balance, Event.insert id balance ∉ handover) ∧ commitOrder run = [2, 1] ∧
      ((ofAccounts oneAccount).retellAll
          (((commitOrder run).map (story run)).map fun st => st.map (·.1))).1 =
        ((commitOrder run).map (story run)).map (fun st => st.map (·.2)) ∧
      ((ofAccounts oneAccount).retellAll
          (((commitOrder run).map (story run)).map fun st => st.map (·.1))).2.accounts =
        ((ofAccounts oneAccount).after handover).accounts := by
  have hins : ∀ id balance, Event.insert id balance ∉ handover := by simp [handover]
  exact ⟨hins, by decide +kernel, commits_serialize oneAccount handover hins⟩

end Store

end RowLedger
