import PeerClaw.Lib.FiniteMap

/-!
# A book of holds

What an escrow wallet is *for*, with no code in sight: a book keeps an amount
that is free to spend, an amount that is bonded, and a set of **holds** — sums
taken out of the free amount and kept aside under a name until they are either
paid out or given back.  A name is used for one hold only, and a hold that is
settled stays settled.

`Posts b e b'` says that the entry `e` may be posted to the book `b` and
leaves `b'`; the entries that would overdraw the book, reuse a name or settle
a hold twice simply cannot be posted.

* `Posts.total_eq` — the total of the book moves by what comes in and what
  goes out, and by nothing else.
* `PostsAll.settles_add_holding` — over any sequence of entries, a name is
  settled as often as it was opened, up to the hold that is still open.
* `PostsAll.settles_le_one` — so no hold is ever settled twice.
-/

namespace Lib
namespace HoldBook

/-- Where a hold stands. -/
inductive Stage
  | held
  | paid
  | returned
  deriving DecidableEq, Repr

/-- A sum set aside. -/
structure Hold where
  /-- The sum. -/
  amount : ℕ
  /-- Whether it is still held, and if not, where it went. -/
  stage : Stage
  deriving DecidableEq, Repr

/-- What a hold contributes to the amount still held. -/
def Hold.weight (h : Hold) : ℕ := if h.stage = .held then h.amount else 0

@[simp] theorem weight_held (a : ℕ) : Hold.weight ⟨a, .held⟩ = a := rfl
@[simp] theorem weight_paid (a : ℕ) : Hold.weight ⟨a, .paid⟩ = 0 := rfl
@[simp] theorem weight_returned (a : ℕ) : Hold.weight ⟨a, .returned⟩ = 0 := rfl

/-- A book of holds, each known by a name in `ι`. -/
structure Book (ι : Type) where
  /-- What may be spent. -/
  free : ℕ
  /-- What is bonded. -/
  bonded : ℕ
  /-- Every hold there ever was. -/
  holds : FiniteMap ι Hold

/-- What can be written into a book. -/
inductive Entry (ι : Type)
  /-- Money comes in. -/
  | deposit (a : ℕ)
  /-- Money goes out. -/
  | withdraw (a : ℕ)
  /-- Money is set aside under a new name. -/
  | hold (i : ι) (a : ℕ)
  /-- A hold goes out to whom it was meant for. -/
  | payOut (i : ι) (a : ℕ)
  /-- A hold comes back. -/
  | giveBack (i : ι) (a : ℕ)
  /-- Free money is bonded. -/
  | bond (a : ℕ)
  /-- Bonded money is freed. -/
  | unbond (a : ℕ)
  deriving DecidableEq, Repr

variable {ι : Type}

namespace Book

/-- The amount held in all open holds together. -/
def held (b : Book ι) : ℕ := b.holds.weigh Hold.weight

/-- All the money in the book. -/
def total (b : Book ι) : ℕ := b.free + b.held + b.bonded

variable [DecidableEq ι]

/-- One when the name has an open hold, zero otherwise. -/
def holding (b : Book ι) (i : ι) : ℕ :=
  match b.holds.lookup i with
  | some h => if h.stage = .held then 1 else 0
  | none => 0

/-- One when the name has ever been used, zero otherwise. -/
def used (b : Book ι) (i : ι) : ℕ := if i ∈ b.holds then 1 else 0

end Book

namespace Entry

/-- Money the entry brings into the book. -/
def inflow : Entry ι → ℕ
  | .deposit a => a
  | _ => 0

/-- Money the entry takes out of the book. -/
def outflow : Entry ι → ℕ
  | .withdraw a => a
  | .payOut _ a => a
  | _ => 0

/-- What the entry adds to the free amount. -/
def frees : Entry ι → ℕ
  | .deposit a => a
  | .giveBack _ a => a
  | .unbond a => a
  | _ => 0

/-- What the entry takes from the free amount. -/
def takes : Entry ι → ℕ
  | .withdraw a => a
  | .hold _ a => a
  | .bond a => a
  | _ => 0

variable [DecidableEq ι]

/-- How often the entry opens a hold of this name. -/
def opens (i : ι) : Entry ι → ℕ
  | .hold j _ => if j = i then 1 else 0
  | _ => 0

/-- How often the entry settles a hold of this name. -/
def settles (i : ι) : Entry ι → ℕ
  | .payOut j _ => if j = i then 1 else 0
  | .giveBack j _ => if j = i then 1 else 0
  | _ => 0

end Entry

variable [DecidableEq ι]

/-- `Posts b e b'`: the entry `e` can be posted to `b`, and leaves `b'`. -/
inductive Posts : Book ι → Entry ι → Book ι → Prop
  | deposit (b : Book ι) (a : ℕ) : Posts b (.deposit a) { b with free := b.free + a }
  | withdraw (b : Book ι) (a : ℕ) : a ≤ b.free →
      Posts b (.withdraw a) { b with free := b.free - a }
  | hold (b : Book ι) (i : ι) (a : ℕ) : a ≤ b.free → i ∉ b.holds →
      Posts b (.hold i a) { b with free := b.free - a, holds := b.holds.insert i ⟨a, .held⟩ }
  | payOut (b : Book ι) (i : ι) (a : ℕ) : b.holds.lookup i = some ⟨a, .held⟩ →
      Posts b (.payOut i a) { b with holds := b.holds.insert i ⟨a, .paid⟩ }
  | giveBack (b : Book ι) (i : ι) (a : ℕ) : b.holds.lookup i = some ⟨a, .held⟩ →
      Posts b (.giveBack i a)
        { b with free := b.free + a, holds := b.holds.insert i ⟨a, .returned⟩ }
  | bond (b : Book ι) (a : ℕ) : a ≤ b.free →
      Posts b (.bond a) { b with free := b.free - a, bonded := b.bonded + a }
  | unbond (b : Book ι) (a : ℕ) : a ≤ b.bonded →
      Posts b (.unbond a) { b with free := b.free + a, bonded := b.bonded - a }

/-- The entries can be posted one after the other. -/
inductive PostsAll : Book ι → List (Entry ι) → Book ι → Prop
  | nil (b : Book ι) : PostsAll b [] b
  | cons {b b' b'' : Book ι} {e : Entry ι} {es : List (Entry ι)} :
      Posts b e b' → PostsAll b' es b'' → PostsAll b (e :: es) b''

/-! ## One entry -/

theorem Posts.total_eq {b b' : Book ι} {e : Entry ι} (h : Posts b e b') :
    b'.total + e.outflow = b.total + e.inflow := by
  cases h with
  | deposit a =>
      simp only [Book.total, Book.held, Entry.outflow, Entry.inflow]
      omega
  | withdraw a ha =>
      simp only [Book.total, Book.held, Entry.outflow, Entry.inflow]
      omega
  | hold i a ha hi =>
      simp only [Book.total, Book.held, Entry.outflow, Entry.inflow,
        Finmap.weigh_insert_new hi, weight_held]
      omega
  | payOut i a hi =>
      have hw := Finmap.weigh_insert_old hi ⟨a, .paid⟩ Hold.weight
      simp only [weight_held, weight_paid] at hw
      simp only [Book.total, Book.held, Entry.outflow, Entry.inflow]
      omega
  | giveBack i a hi =>
      have hw := Finmap.weigh_insert_old hi ⟨a, .returned⟩ Hold.weight
      simp only [weight_held, weight_returned] at hw
      simp only [Book.total, Book.held, Entry.outflow, Entry.inflow]
      omega
  | bond a ha =>
      simp only [Book.total, Book.held, Entry.outflow, Entry.inflow]
      omega
  | unbond a ha =>
      simp only [Book.total, Book.held, Entry.outflow, Entry.inflow]
      omega

theorem Posts.free_eq {b b' : Book ι} {e : Entry ι} (h : Posts b e b') :
    b'.free + e.takes = b.free + e.frees := by
  cases h with
  | deposit a => rfl
  | withdraw a ha => exact Nat.sub_add_cancel ha
  | hold i a ha hi => exact Nat.sub_add_cancel ha
  | payOut i a hi => rfl
  | giveBack i a hi => rfl
  | bond a ha => exact Nat.sub_add_cancel ha
  | unbond a ha => rfl

/-- Settling closes an open hold, opening makes one: nothing else changes which
names are held. -/
theorem Posts.settles_add_holding {b b' : Book ι} {e : Entry ι} (h : Posts b e b') (i : ι) :
    e.settles i + b'.holding i = b.holding i + e.opens i := by
  cases h with
  | deposit a => simp [Entry.settles, Entry.opens, Book.holding]
  | withdraw a ha => simp [Entry.settles, Entry.opens, Book.holding]
  | hold j a ha hj =>
      by_cases hij : i = j
      · subst hij
        simp [Entry.settles, Entry.opens, Book.holding, Finmap.lookup_eq_none.2 hj]
      · simp [Entry.settles, Entry.opens, Book.holding, hij, Ne.symm hij]
  | payOut j a hj =>
      by_cases hij : i = j
      · subst hij
        simp [Entry.settles, Entry.opens, Book.holding, hj]
      · simp [Entry.settles, Entry.opens, Book.holding, hij, Ne.symm hij]
  | giveBack j a hj =>
      by_cases hij : i = j
      · subst hij
        simp [Entry.settles, Entry.opens, Book.holding, hj]
      · simp [Entry.settles, Entry.opens, Book.holding, hij, Ne.symm hij]
  | bond a ha => simp [Entry.settles, Entry.opens, Book.holding]
  | unbond a ha => simp [Entry.settles, Entry.opens, Book.holding]

theorem Posts.used_eq {b b' : Book ι} {e : Entry ι} (h : Posts b e b') (i : ι) :
    b'.used i = b.used i + e.opens i := by
  cases h with
  | deposit a => simp [Entry.opens, Book.used]
  | withdraw a ha => simp [Entry.opens, Book.used]
  | hold j a ha hj =>
      by_cases hij : i = j
      · subst hij
        simp [Entry.opens, Book.used, hj]
      · simp [Entry.opens, Book.used, hij, Ne.symm hij]
  | payOut j a hj =>
      by_cases hij : i = j
      · subst hij
        simp [Entry.opens, Book.used, Finmap.mem_of_lookup_eq_some hj]
      · simp [Entry.opens, Book.used, hij]
  | giveBack j a hj =>
      by_cases hij : i = j
      · subst hij
        simp [Entry.opens, Book.used, Finmap.mem_of_lookup_eq_some hj]
      · simp [Entry.opens, Book.used, hij]
  | bond a ha => simp [Entry.opens, Book.used]
  | unbond a ha => simp [Entry.opens, Book.used]

/-! ## Any sequence of entries -/

namespace PostsAll

theorem append {b b' b'' : Book ι} {es fs : List (Entry ι)} (h : PostsAll b es b')
    (h' : PostsAll b' fs b'') : PostsAll b (es ++ fs) b'' := by
  induction h with
  | nil b => exact h'
  | cons hp _ ih => exact .cons hp (ih h')

theorem single {b b' : Book ι} {e : Entry ι} (h : Posts b e b') : PostsAll b [e] b' :=
  .cons h (.nil b')

/-- **Conservation.**  The total moves by what comes in and what goes out. -/
theorem total_eq {b b' : Book ι} {es : List (Entry ι)} (h : PostsAll b es b') :
    b'.total + (es.map Entry.outflow).sum = b.total + (es.map Entry.inflow).sum := by
  induction h with
  | nil b => rfl
  | cons hp _ ih =>
      have hone := hp.total_eq
      simp only [List.map_cons, List.sum_cons]
      omega

theorem free_eq {b b' : Book ι} {es : List (Entry ι)} (h : PostsAll b es b') :
    b'.free + (es.map Entry.takes).sum = b.free + (es.map Entry.frees).sum := by
  induction h with
  | nil b => rfl
  | cons hp _ ih =>
      have hone := hp.free_eq
      simp only [List.map_cons, List.sum_cons]
      omega

theorem settles_add_holding {b b' : Book ι} {es : List (Entry ι)} (h : PostsAll b es b') (i : ι) :
    (es.map (Entry.settles i)).sum + b'.holding i = b.holding i + (es.map (Entry.opens i)).sum := by
  induction h with
  | nil b => simp
  | cons hp _ ih =>
      have hone := hp.settles_add_holding i
      simp only [List.map_cons, List.sum_cons]
      omega

theorem used_eq {b b' : Book ι} {es : List (Entry ι)} (h : PostsAll b es b') (i : ι) :
    b'.used i = b.used i + (es.map (Entry.opens i)).sum := by
  induction h with
  | nil b => simp
  | cons hp _ ih =>
      have hone := hp.used_eq i
      simp only [List.map_cons, List.sum_cons]
      omega

end PostsAll

theorem Book.holding_le_used (b : Book ι) (i : ι) : b.holding i ≤ b.used i := by
  unfold Book.holding Book.used
  cases h : b.holds.lookup i with
  | none => exact Nat.zero_le _
  | some x =>
      rw [if_pos (Finmap.mem_of_lookup_eq_some h)]
      dsimp only
      split <;> omega

theorem Book.used_le_one (b : Book ι) (i : ι) : b.used i ≤ 1 := by
  unfold Book.used
  split <;> omega

/-- **No hold is settled twice**, whatever is posted and in whatever order. -/
theorem PostsAll.settles_le_one {b b' : Book ι} {es : List (Entry ι)} (h : PostsAll b es b')
    (i : ι) : (es.map (Entry.settles i)).sum ≤ 1 := by
  have hset := h.settles_add_holding i
  have huse := h.used_eq i
  have hstart := b.holding_le_used i
  have hend := b'.used_le_one i
  omega

end HoldBook
end Lib
