import PracticalMicroservice.Cart.Redis

/-!
# A commit on the wire (`cart.scripts.ts`, `cart.repository.ts`)

A script is handed one flat list of texts and answers with another, and the fields of a hash are
texts too. How the arguments of `CART_COMMIT` are laid out and read again is the subject here; what
the script does to the keys is `Redis.cartCommit`.
-/

namespace PracticalMicroservice.Cart

open Foundations (IsDouble numberOf stringOf)

/-- The fields of a hash, as `Number` reads their values. -/
def numbers (entries : List (String × String)) : List (String × Int) :=
  entries.map fun entry => (entry.1, Int.ofNat ((numberOf entry.2).getD 0))

/-- `heldQuantities`. -/
def heldTexts (entries : List (String × String)) : Held := heldQuantities (numbers entries)

/-! ## Flat lists -/

/-- `pairs`. -/
def pairs : List String → List (String × String)
  | field :: value :: rest => (field, value) :: pairs rest
  | _ => []

/-- The reply of `HGETALL` inside a script. -/
def flat (entries : List (String × String)) : List String :=
  entries.flatMap fun entry => [entry.1, entry.2]

namespace Script

/-- Lua's `tonumber` of decimal digits, which is how a count is written. -/
def tonumber (raw : String) : Option Nat :=
  if raw.toList ≠ [] ∧ raw.toList.all Char.isDigit then some (Nat.ofDigitChars 10 raw.toList 0)
  else none

/-- `HSET key field value …`. -/
def hset (items : List (String × String)) (sets : List String) : List (String × String) :=
  (pairs sets).foldl (fun items entry => Entries.set items entry.1 entry.2) items

/-- `HDEL key field …`. A hash goes with its last field. -/
def hdel (items : List (String × String)) (removals : List String) : List (String × String) :=
  removals.foldl Entries.delete items

/-- The turns of `for i = 1, count do list[i] = ARGV[cursor + i] end`. Lua counts from one. -/
def collect (argv : List String) (cursor count : Nat) : List String :=
  (List.range count).filterMap fun i => argv[cursor + i]?

/-- `CART_COMMIT` on the items hash: what the script leaves of it, and what it answers. -/
def CART_COMMIT (argv : List String) (items : List (String × String)) :
    Option (List (String × String) × List String) := do
  let pairCount ← tonumber (← argv[4]?)
  let cursor := 5
  let items :=
    if pairCount > 0 then hset items (collect argv cursor (pairCount * 2)) else items
  let cursor := cursor + pairCount * 2
  let removals := collect argv cursor (argv.length - cursor)
  let items := if removals.length > 0 then hdel items removals else items
  return (items, flat items)

end Script

namespace CartRepository

/-- The arguments `commit` passes after the keys. An array is too short for its length to be written
other than with its digits. -/
def commitArguments (cart : SessionId) (sessionTtl itemsTtl dueAt : Nat) (changes : CartChanges) :
    List String :=
  [cart.text, stringOf sessionTtl, stringOf itemsTtl, stringOf dueAt,
    toString changes.writes.length] ++
  changes.writes.flatMap (fun line => [line.productId, stringOf line.quantity]) ++
  changes.removals

end CartRepository

/-! ## What an update is to settle -/

/-- What is held, overridden line by line by the request; a line at zero is removed. -/
def settledBy (held : Held) (requested : List CartLine) : Held :=
  held.filter (fun entry => entry.1 ∉ requested.map (·.productId)) ++
    (requested.filter (·.quantity ≠ 0)).map fun line => (line.productId, line.quantity)

/-- Positive quantities of distinct, named products, each a double. -/
structure ProperHeld (held : Held) : Prop where
  distinct : Entries.Distinct held
  positive : ∀ entry ∈ held, 0 < entry.2
  named : ∀ entry ∈ held, entry.1 ≠ ""
  doubles : ∀ entry ∈ held, IsDouble entry.2

/-- Lines for distinct, named products, whose quantities are doubles. -/
structure ProperRequest (requested : List CartLine) : Prop where
  distinct : (requested.map (·.productId)).Nodup
  named : ∀ line ∈ requested, line.productId ≠ ""
  doubles : ∀ line ∈ requested, IsDouble line.quantity

/-- The items hash lists what is held, and nothing else. -/
structure Stores (items : List (String × String)) (held : Held) : Prop where
  distinct : Entries.Distinct items
  fields : ∀ p, Entries.get items p = (Entries.get held p).map stringOf

/-- `localeCompare` orders texts, and tells the given ones apart. -/
structure Collation (collates : String → String → Bool) (texts : List String) : Prop where
  total : ∀ a b, collates a b = true ∨ collates b a = true
  trans : ∀ a b c, collates a b = true → collates b c = true → collates a c = true
  strict : ∀ a ∈ texts, ∀ b ∈ texts, collates a b = true → collates b a = true → a = b

/-- The plan moves exactly the difference between what is held and what is to be. -/
structure PlanSettles (held : Held) (requested : List CartLine) (changes : CartChanges) : Prop where
  reserves : ∀ line ∈ changes.reserve, 0 < line.quantity
  releases : ∀ line ∈ changes.release, 0 < line.quantity
  disjoint : ∀ line ∈ changes.reserve, line.productId ∉ changes.release.map (·.productId)
  balance : ∀ p, ((Entries.get held p).getD 0 : Int) + quantityOf changes.reserve p -
    quantityOf changes.release p = (Entries.get (settledBy held requested) p).getD 0
  size : changes.size = (settledBy held requested).length
  noop : isNoop changes = true ↔
    ∀ p, Entries.get (settledBy held requested) p = Entries.get held p

/-- A cart's hash as updates, one at a time, leave it. The hash may expire before a commit, and it
goes when the cart ends. -/
inductive CartReachable : List (String × String) → Prop
  | empty : CartReachable []
  | updated {items base items' : List (String × String)} {reply : List String}
      {requested : List CartLine} {cart : SessionId} {sessionTtl itemsTtl dueAt : Nat} :
      CartReachable items → base = items ∨ base = [] →
      (∀ line ∈ requested, line.productId ≠ "") → (∀ line ∈ requested, IsDouble line.quantity) →
      (duplicateProductIds requested).length = 0 →
      exceedsBulkLimit (planChanges (heldTexts items) requested) = false →
      isNoop (planChanges (heldTexts items) requested) = false →
      Script.CART_COMMIT (CartRepository.commitArguments cart sessionTtl itemsTtl dueAt
        (planChanges (heldTexts items) requested)) base = some (items', reply) →
      CartReachable items'
  | ended {items : List (String × String)} :
      CartReachable items → CartReachable []

/-- Plan and commit settle one update: the plan moves the difference, the commit turns a hash that
lists what is held into one that lists what is to be, and answers with it; and so no cart gets
beyond what one bulk call can carry. -/
structure UpdateSettles (held : Held) (requested : List CartLine) : Prop where
  plan : PlanSettles held requested (planChanges held requested)
  commit : ∀ (collates : String → String → Bool) (cart : SessionId)
    (sessionTtl itemsTtl dueAt : Nat) (items : List (String × String)), Stores items held →
    Collation collates ((settledBy held requested).map Prod.fst) →
    ∃ items' reply,
      Script.CART_COMMIT (CartRepository.commitArguments cart sessionTtl itemsTtl dueAt
        (planChanges held requested)) items = some (items', reply) ∧
      Stores items' (settledBy held requested) ∧
      toCartLines collates (heldTexts (pairs reply)) =
        toCartLines collates (settledBy held requested)
  few : ∀ items, CartReachable items → items.length ≤ MAX_BULK_LINES ∧
    ∀ entry ∈ items, ∃ n, 0 < n ∧ entry.2 = stringOf n

/-- No line asks for a quantity whose difference from the one held a double cannot hold. -/
def DifferencesHeld (held : Held) (requested : List CartLine) : Prop :=
  ∀ line ∈ requested, IsDouble (line.quantity - (Entries.get held line.productId).getD 0) ∧
    IsDouble ((Entries.get held line.productId).getD 0 - line.quantity)

instance (held : Held) (requested : List CartLine) : Decidable (DifferencesHeld held requested) :=
  inferInstanceAs (Decidable (∀ line ∈ requested, _ ∧ _))

end PracticalMicroservice.Cart
