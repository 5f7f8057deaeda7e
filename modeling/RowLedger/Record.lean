import RowLedger.Json.Basic
import RowLedger.Transfer

/-!
# Records

Accounts and transfers as JSON. They are written as objects with their amounts
as strings. They are read from objects, where unknown members are ignored and
a missing one is an error, or from arrays of the members in order. An amount
may also be a number; a fraction stands for its shortest decimal text.

## Main definitions

* `Decimal.ofJson?`: An amount from a number or a string.
* `Account.ofJson?`, `Account.toJson`: Accounts.
* `Transfer.ofJson?`, `Transfer.toJson`: Transfers.
-/

namespace RowLedger

/-- A whole number of 64 bits with a sign. -/
def Json.toInt64? : Json → Option Int
  | .whole n => if -2 ^ 63 ≤ n ∧ n < 2 ^ 63 then some n else none
  | _ => none

def Decimal.ofJson? : Json → Option Decimal
  | .whole n => ofParts? (decide (n < 0)) n.natAbs 0
  | .fraction x => read? x.plain
  | .string s => readAny? s
  | _ => none

/-- The values of named members, or the items of an array of the same length. -/
def Json.fields? (names : List String) : Json → Option (List Json)
  | .array items => if items.length = names.length then some items else none
  | .object members => names.mapM (lastMember? · members)
  | _ => none

namespace Account

def ofJson? (v : Json) : Option Account :=
  match v.fields? ["id", "balance", "version"] with
  | some [id, balance, version] => do
    pure ⟨← id.toInt64?, ← Decimal.ofJson? balance, ← version.toInt64?⟩
  | _ => none

def toJson (a : Account) : Json :=
  .object [("id", .whole a.id), ("balance", .string a.balance.render),
    ("version", .whole a.version)]

end Account

namespace Transfer

def ofJson? (v : Json) : Option Transfer :=
  match v.fields? ["from_id", "to_id", "amount"] with
  | some [source, target, amount] => do
    pure ⟨← source.toInt64?, ← target.toInt64?, ← Decimal.ofJson? amount⟩
  | _ => none

def toJson (t : Transfer) : Json :=
  .object [("from_id", .whole t.source), ("to_id", .whole t.target),
    ("amount", .string t.amount.render)]

end Transfer

end RowLedger
