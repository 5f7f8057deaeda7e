import RowLedger.Proofs.Flow

/-!
# Running sums

The net deltas of a batch, account by account. A transfer has two sides, and
the sides of a batch are its postings, in the order of the list and the source
of a transfer before its target. The sum of an account runs over its own
postings only. It need not exist, since each of its steps may leave the range.

A table of sums is what the postings make of it all together, and it fails at
the first posting whose account has no sum any longer. So the table and the
sums say the same, and neither the order of the accounts nor what happens to
other accounts plays a part in a sum.

## Main definitions

* `Posting`, `postings`: The sides of the transfers of a batch.
* `runningSum`: The sum of an account after some postings.
* `Mentions`: A batch mentions an account.
* `LeavesAt`: The first posting after which a sum leaves the range.

## Theorems

* `moveAll_eq`: To move is to post both sides.
* `sum_of_post`, `leaves_of_post`: What a table of sums says about each account.
* `leaves_unique`: There is one account whose sum leaves the range first.
* `netDeltas_ok`, `netDeltas_error`: The same for the net deltas of a batch.
-/

namespace RowLedger

/-- One side of a transfer. -/
structure Posting where
  id : AccountId
  amount : Decimal
  /-- The amount is given to the account and not taken from it. -/
  incoming : Bool

/-- What a posting makes of a sum. -/
def Posting.apply (p : Posting) (sum : Decimal) : Option Decimal :=
  if p.incoming then sum.add? p.amount else sum.sub? p.amount

/-- Both sides of a transfer, its source first. -/
def Transfer.sides (t : Transfer) : List Posting :=
  [⟨t.source, t.amount, false⟩, ⟨t.target, t.amount, true⟩]

/-- All sides of a batch in the order of the list. -/
def postings (batch : List Transfer) : List Posting := batch.flatMap Transfer.sides

/-- The sum of an account after some postings, from a first sum on. -/
def sumFrom (sum : Decimal) (ps : List Posting) (id : AccountId) : Option Decimal :=
  (ps.filter fun p => decide (p.id = id)).foldlM (fun sum p => p.apply sum) sum

/-- The sum of an account after some postings. -/
def runningSum (ps : List Posting) (id : AccountId) : Option Decimal := sumFrom .zero ps id

/-- A batch mentions an account. -/
def Mentions (batch : List Transfer) (id : AccountId) : Prop :=
  ∃ t ∈ batch, t.source = id ∨ t.target = id

/-- The first posting after which a sum leaves the range is one of this account. -/
def LeavesAt (ps : List Posting) (id : AccountId) : Prop :=
  ∃ before p after, ps = before ++ p :: after ∧ p.id = id ∧
    (∀ other, (runningSum before other).isSome = true) ∧ runningSum (before ++ [p]) id = none

theorem mentions_iff {batch : List Transfer} {id : AccountId} :
    Mentions batch id ↔ ∃ p ∈ postings batch, p.id = id := by
  constructor
  · rintro ⟨t, ht, hid | hid⟩
    · exact ⟨⟨t.source, t.amount, false⟩, List.mem_flatMap.2 ⟨t, ht, by simp [Transfer.sides]⟩, hid⟩
    · exact ⟨⟨t.target, t.amount, true⟩, List.mem_flatMap.2 ⟨t, ht, by simp [Transfer.sides]⟩, hid⟩
  · rintro ⟨p, hp, hid⟩
    rcases List.mem_flatMap.1 hp with ⟨t, ht, hside⟩
    simp only [Transfer.sides, List.mem_cons, List.not_mem_nil, or_false] at hside
    rcases hside with rfl | rfl
    · exact ⟨t, ht, Or.inl hid⟩
    · exact ⟨t, ht, Or.inr hid⟩

theorem sumFrom_cons (sum : Decimal) (p : Posting) (rest : List Posting) (id : AccountId) :
    sumFrom sum (p :: rest) id =
      if p.id = id then (p.apply sum).bind fun sum => sumFrom sum rest id
      else sumFrom sum rest id := by
  by_cases h : p.id = id
  · rw [sumFrom, List.filter_cons_of_pos (by simp [h]), if_pos h]
    rfl
  · rw [sumFrom, List.filter_cons_of_neg (by simp [h]), if_neg h]
    rfl

namespace Deltas

/-- All postings on top of a table of sums. -/
def postAll (d : Deltas) : List Posting → Except Failure Deltas
  | [] => .ok d
  | p :: rest =>
    match d.adjust p.id p.apply with
    | .error e => .error e
    | .ok d => d.postAll rest

/-- To move is to post both sides, the source before the target. -/
theorem moveAll_eq (d : Deltas) (batch : List Transfer) :
    d.moveAll batch = d.postAll (postings batch) := by
  induction batch generalizing d with
  | nil => rfl
  | cons t rest ih =>
      have hsides : postings (t :: rest) =
          ⟨t.source, t.amount, false⟩ :: ⟨t.target, t.amount, true⟩ :: postings rest := rfl
      have hsource : Posting.apply ⟨t.source, t.amount, false⟩ = (·.sub? t.amount) := rfl
      have htarget : Posting.apply ⟨t.target, t.amount, true⟩ = (·.add? t.amount) := rfl
      rw [moveAll, move, hsides, postAll, hsource]
      cases d.adjust t.source (·.sub? t.amount) with
      | error e => rfl
      | ok d' =>
          simp only [postAll, htarget]
          cases d'.adjust t.target (·.add? t.amount) with
          | error e => rfl
          | ok d'' => exact ih d''

variable {d d' : Deltas} {ps : List Posting}

-- Both inductions are on the postings, from the sums that the table holds at the time.
/-- A table that came through all postings holds the sum of each account. -/
theorem sum_of_post (h : d.postAll ps = .ok d') (id : AccountId) :
    sumFrom (d.current id) ps id = some (d'.current id) ∧
      ((d'.get? id).isSome = true ↔ (d.get? id).isSome = true ∨ ∃ p ∈ ps, p.id = id) := by
  induction ps generalizing d with
  | nil =>
      rw [postAll, Except.ok.injEq] at h
      rw [← h]
      exact ⟨rfl, by simp⟩
  | cons p rest ih =>
      rw [postAll, adjust] at h
      cases hsum : p.apply (d.current p.id) with
      | none => simp [hsum] at h
      | some sum =>
          simp only [hsum] at h
          rcases ih h with ⟨hrest, hkeys⟩
          rw [current_insert] at hrest
          rw [Table.get?_insert] at hkeys
          rw [sumFrom_cons]
          by_cases hid : p.id = id
          · rw [if_pos hid] at hrest hkeys
            rw [if_pos hid, ← hid, hsum, Option.bind_some, hid]
            refine ⟨hrest, hkeys.trans ?_⟩
            simp [hid]
          · rw [if_neg hid] at hrest hkeys
            rw [if_neg hid]
            refine ⟨hrest, hkeys.trans ?_⟩
            simp [hid]

/-- A table that did not come through fails at the first posting after which a sum leaves the
range. -/
theorem leaves_of_post {e : Failure} (h : d.postAll ps = .error e) :
    ∃ before p after, ps = before ++ p :: after ∧
      (∀ id, (sumFrom (d.current id) before id).isSome = true) ∧
      sumFrom (d.current p.id) (before ++ [p]) p.id = none ∧ e = .overflow p.id := by
  induction ps generalizing d with
  | nil => simp [postAll] at h
  | cons p rest ih =>
      rw [postAll, adjust] at h
      cases hsum : p.apply (d.current p.id) with
      | none =>
          simp only [hsum, Except.error.injEq] at h
          refine ⟨[], p, rest, rfl, ?_, ?_, h.symm⟩
          · exact fun id => rfl
          · rw [List.nil_append, sumFrom_cons, if_pos rfl, hsum, Option.bind_none]
      | some sum =>
          simp only [hsum] at h
          rcases ih h with ⟨before, last, after, hsplit, hbefore, hleaves, hfailure⟩
          -- The sums of the rest start where the first posting has left them.
          have hstart : ∀ (more : List Posting) (id : AccountId),
              sumFrom (d.current id) (p :: more) id =
                sumFrom (Deltas.current (d.insert p.id sum) id) more id := by
            intro more id
            rw [sumFrom_cons, current_insert]
            by_cases hid : p.id = id
            · rw [if_pos hid, if_pos hid, ← hid, hsum, Option.bind_some]
            · rw [if_neg hid, if_neg hid]
          refine ⟨p :: before, last, after, by rw [hsplit]; rfl, ?_, ?_, hfailure⟩
          · intro id
            rw [hstart]
            exact hbefore id
          · rw [List.cons_append, hstart]
            exact hleaves

end Deltas

/-- A sum that leaves the range on the way is not there in the end. -/
theorem runningSum_of_leaves {ps : List Posting} {id : AccountId} (h : LeavesAt ps id) :
    runningSum ps id = none := by
  rcases h with ⟨first, p, rest, rfl, _, _, hleaves⟩
  rw [runningSum, sumFrom] at hleaves ⊢
  rw [List.append_cons, List.filter_append, List.foldlM_append, hleaves]
  rfl

theorem not_sums_of_leaves {ps : List Posting} {id : AccountId} (h : LeavesAt ps id) :
    ¬ ∀ other, (runningSum ps other).isSome = true := by
  intro hsums
  have hsum := hsums id
  rw [runningSum_of_leaves h] at hsum
  simp at hsum

/-- Sums exist only up to the place where the first one leaves the range. -/
theorem length_le_of_leaves {before after before' after' : List Posting} {p p' : Posting}
    (hsplit : before ++ p :: after = before' ++ p' :: after')
    (hsums : ∀ other, (runningSum before other).isSome = true)
    (hleaves : runningSum (before ++ [p]) p.id = none)
    (hsums' : ∀ other, (runningSum before' other).isSome = true) :
    before'.length ≤ before.length := by
  rcases List.append_eq_append_iff.1 hsplit with ⟨gap, hbefore, hgap⟩ | ⟨gap, hbefore, _⟩
  · cases gap with
    | nil => rw [hbefore, List.append_nil]
    | cons q rest =>
        rw [List.cons_append, List.cons.injEq] at hgap
        rw [← hgap.1] at hbefore
        exact absurd hsums' (not_sums_of_leaves ⟨before, p, rest, hbefore, rfl, hsums, hleaves⟩)
  · rw [hbefore, List.length_append]
    exact Nat.le_add_right _ _

/-- The first sum that leaves the range is that of one account only. -/
theorem leaves_unique {ps : List Posting} {id id' : AccountId} (h : LeavesAt ps id)
    (h' : LeavesAt ps id') : id = id' := by
  rcases h with ⟨before, p, after, hsplit, rfl, hsums, hleaves⟩
  rcases h' with ⟨before', p', after', hsplit', rfl, hsums', hleaves'⟩
  rw [hsplit] at hsplit'
  have hlength : before.length = before'.length :=
    Nat.le_antisymm (length_le_of_leaves hsplit'.symm hsums' hleaves' hsums)
      (length_le_of_leaves hsplit' hsums hleaves hsums')
  have hplace := (List.append_inj hsplit' hlength).2
  rw [List.cons.injEq] at hplace
  rw [hplace.1]

variable {batch : List Transfer}

/-- Net deltas are the sums of the accounts that are mentioned. -/
theorem netDeltas_ok {deltas : Deltas} (h : netDeltas batch = .ok deltas) (id : AccountId) :
    runningSum (postings batch) id = some (deltas.current id) ∧
      ((deltas.get? id).isSome = true ↔ Mentions batch id) := by
  rw [netDeltas, Deltas.moveAll_eq] at h
  rcases Deltas.sum_of_post h id with ⟨hsum, hkeys⟩
  refine ⟨hsum, hkeys.trans ?_⟩
  rw [mentions_iff]
  simp

/-- There are no net deltas if some sum leaves the range on the way. -/
theorem netDeltas_error {e : Failure} (h : netDeltas batch = .error e) :
    ∃ id, e = .overflow id ∧ LeavesAt (postings batch) id := by
  rw [netDeltas, Deltas.moveAll_eq] at h
  rcases Deltas.leaves_of_post h with ⟨before, p, after, hsplit, hbefore, hleaves, hfailure⟩
  exact ⟨p.id, hfailure, before, p, after, hsplit, rfl, hbefore, hleaves⟩

end RowLedger
