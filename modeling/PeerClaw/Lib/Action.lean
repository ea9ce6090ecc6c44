import PeerClaw.Lib.Word

/-!
# Fallible actions on a state

The body of a method that takes a write lock, mutates the state and may return
early is an `Action`: from a state it computes an outcome — a value, an error
or a panic — and **the state it leaves behind in every case**, since an error
returned half way does not undo what was already written.  It also lists the
word operations it performed on counters, so that one can ask afterwards
whether any of them wrapped.

Actions compose as in a `do` block with `?`: an error or a panic ends the
block (`bind_of_ok`, `bind_of_not_ok`).
-/

namespace Lib

open Word

/-- How a call ends. -/
inductive Outcome (ε α : Type)
  | ok (a : α)
  | err (e : ε)
  | panic
  deriving DecidableEq

/-- The call returned a value. -/
def Outcome.isOk {ε α : Type} : Outcome ε α → Bool
  | .ok _ => true
  | _ => false

/-- A call that cannot panic. -/
def Outcome.ofExcept {ε α : Type} : Except ε α → Outcome ε α
  | .ok a => .ok a
  | .error e => .err e

/-- Apply a function to the value of a call that returned one. -/
def Outcome.map {ε α β : Type} (g : α → β) : Outcome ε α → Outcome ε β
  | .ok a => .ok (g a)
  | .err e => .err e
  | .panic => .panic

/-- Apply a function to the error of a call that returned one. -/
def Outcome.mapErr {ε ε' α : Type} (g : ε → ε') : Outcome ε α → Outcome ε' α
  | .ok a => .ok a
  | .err e => .err (g e)
  | .panic => .panic

/-- The value of a call that returned one. -/
def Outcome.toOption {ε α : Type} : Outcome ε α → Option α
  | .ok a => some a
  | _ => none

section Outcomes

variable {ε α : Type} {o : Outcome ε α}

theorem Outcome.ok_or_not (o : Outcome ε α) : (∃ a, o = .ok a) ∨ o.isOk = false := by
  cases o with
  | ok a => exact .inl ⟨a, rfl⟩
  | err e => exact .inr rfl
  | panic => exact .inr rfl

theorem Outcome.isOk_iff : o.isOk ↔ ∃ a, o = .ok a := by
  cases o <;> simp [isOk]

theorem Outcome.ne_ok (h : o.isOk = false) (a : α) : o ≠ .ok a := by
  rintro rfl
  cases h

theorem Outcome.not_ok {o : Outcome ε Unit} (h : o ≠ .ok ()) : o.isOk = false := by
  rcases o.ok_or_not with ⟨⟨⟩, ho⟩ | ho
  · exact absurd ho h
  · exact ho

@[simp] theorem Outcome.isOk_map {β : Type} (g : α → β) : (o.map g).isOk = o.isOk := by
  cases o <;> rfl

@[simp] theorem Outcome.mapErr_ok_iff {ε' : Type} {g : ε → ε'} {a : α} :
    o.mapErr g = .ok a ↔ o = .ok a := by
  cases o <;> simp [mapErr]

theorem Outcome.toOption_of_not_ok (h : o.isOk = false) : o.toOption = none := by
  cases o with
  | ok a => cases h
  | err e => rfl
  | panic => rfl

end Outcomes

/-- Everything an action leaves behind. -/
structure Effect (σ ε α : Type) where
  /-- How the action ended. -/
  outcome : Outcome ε α
  /-- The state it left, whether it succeeded or not. -/
  state : σ
  /-- The word operations it performed on counters, in order. -/
  arith : List Arith

/-- A fallible action on a state. -/
def Action (σ ε α : Type) : Type := σ → Effect σ ε α

namespace Action

variable {σ ε α β : Type}

/-- Return a value and touch nothing. -/
def pure (a : α) : Action σ ε α := fun s => ⟨.ok a, s, []⟩

/-- Return an error and touch nothing. -/
def fail (e : ε) : Action σ ε α := fun s => ⟨.err e, s, []⟩

/-- Do one thing, then another with its result, unless it failed. -/
def bind (x : Action σ ε α) (f : α → Action σ ε β) : Action σ ε β := fun s =>
  match (x s).outcome with
  | .ok a =>
      let next := f a (x s).state
      ⟨next.outcome, next.state, (x s).arith ++ next.arith⟩
  | .err e => ⟨.err e, (x s).state, (x s).arith⟩
  | .panic => ⟨.panic, (x s).state, (x s).arith⟩

instance : Monad (Action σ ε) where
  pure := pure
  bind := bind

theorem bind_of_ok {x : Action σ ε α} {f : α → Action σ ε β} {s : σ} {a : α}
    (h : (x s).outcome = .ok a) :
    (x >>= f) s = ⟨(f a (x s).state).outcome, (f a (x s).state).state,
      (x s).arith ++ (f a (x s).state).arith⟩ := by
  show bind x f s = _
  simp only [bind, h]

theorem bind_of_not_ok {x : Action σ ε α} {f : α → Action σ ε β} {s : σ}
    (h : (x s).outcome.isOk = false) :
    ((x >>= f) s).outcome.isOk = false ∧ ((x >>= f) s).state = (x s).state ∧
      ((x >>= f) s).arith = (x s).arith := by
  show (bind x f s).outcome.isOk = false ∧ (bind x f s).state = _ ∧ (bind x f s).arith = _
  unfold bind
  cases hx : (x s).outcome with
  | ok a => rw [hx] at h; cases h
  | err e => exact ⟨rfl, rfl, rfl⟩
  | panic => exact ⟨rfl, rfl, rfl⟩

theorem bind_of_err {x : Action σ ε α} {f : α → Action σ ε β} {s : σ} {e : ε}
    (h : (x s).outcome = .err e) :
    ((x >>= f) s).outcome = .err e ∧ ((x >>= f) s).state = (x s).state := by
  show (bind x f s).outcome = _ ∧ (bind x f s).state = _
  simp only [bind, h]
  exact ⟨trivial, trivial⟩

/-- A block that succeeded went through its first action and then its second. -/
theorem bind_isOk {x : Action σ ε α} {f : α → Action σ ε β} {s : σ}
    (h : ((x >>= f) s).outcome.isOk) :
    ∃ a, (x s).outcome = .ok a ∧ ((x >>= f) s).outcome = (f a (x s).state).outcome ∧
      ((x >>= f) s).state = (f a (x s).state).state := by
  rcases (x s).outcome.ok_or_not with ⟨a, hx⟩ | hx
  · rw [bind_of_ok hx]
    exact ⟨a, hx, rfl, rfl⟩
  · rw [(bind_of_not_ok (f := f) hx).1] at h
    cases h

/-- A relation between states that a block's two parts go along with is one the block goes
along with, however it ends. -/
theorem bind_rel {R : σ → σ → Prop} (htrans : ∀ {a b c}, R a b → R b c → R a c)
    {x : Action σ ε α} {f : α → Action σ ε β} {s : σ} (hx : R s (x s).state)
    (hf : ∀ a, R (x s).state (f a (x s).state).state) : R s ((x >>= f) s).state := by
  rcases (x s).outcome.ok_or_not with ⟨a, ha⟩ | hfail
  · rw [bind_of_ok ha]
    exact htrans hx (hf a)
  · rw [(bind_of_not_ok hfail).2.1]
    exact hx

theorem map_apply (g : α → β) (x : Action σ ε α) (s : σ) :
    (g <$> x) s = ⟨(x s).outcome.map g, (x s).state, (x s).arith⟩ := by
  show bind x (fun a => pure (g a)) s = _
  unfold bind
  cases hx : (x s).outcome with
  | ok a => simp [pure, Outcome.map]
  | err e => rfl
  | panic => rfl

/-- Blocks may be bracketed anyhow. -/
instance : LawfulMonad (Action σ ε) :=
  LawfulMonad.mk' _
    (by
      intro α x
      funext s
      rw [map_apply]
      cases h : x s with
      | mk outcome state arith => cases outcome <;> simp [Outcome.map])
    (by
      intro α β a f
      funext s
      rw [bind_of_ok (a := a) rfl]
      rfl)
    (by
      intro α β γ x f g
      funext s
      show bind (bind x f) g s = bind x (fun a => bind (f a) g) s
      unfold bind
      cases hx : (x s).outcome with
      | err e => rfl
      | panic => rfl
      | ok a =>
          dsimp only
          cases hf : (f a (x s).state).outcome with
          | ok b => simp
          | err e => rfl
          | panic => rfl)

theorem bind_return (x : Action σ ε α) {y : Action σ ε Unit} (hy : y = pure ()) :
    (do let a ← x; y; return a : Action σ ε α) = x := by
  have hpure : y = (Pure.pure () : Action σ ε Unit) := hy
  simp [hpure]

/-! ## Parts of the state, and failures that do not matter -/

/-- Go on whether or not an action failed; a panic is not caught. -/
def attempt (x : Action σ ε α) : Action σ ε Unit := fun s =>
  ⟨match (x s).outcome with
    | .panic => .panic
    | _ => .ok (), (x s).state, (x s).arith⟩

@[simp] theorem attempt_fail (e : ε) : (fail e : Action σ ε α).attempt = Pure.pure () := rfl

@[simp] theorem attempt_map (g : α → β) (x : Action σ ε α) : (g <$> x).attempt = x.attempt := by
  funext s
  unfold attempt
  rw [map_apply]
  cases (x s).outcome <;> rfl

theorem attempt_bind {x : Action σ ε α} (hx : ∀ s, (x s).outcome.isOk) (f : α → Action σ ε β) :
    (x >>= f).attempt = x >>= fun a => (f a).attempt := by
  funext s
  obtain ⟨a, ha⟩ := Outcome.isOk_iff.1 (hx s)
  rw [bind_of_ok (f := fun a => (f a).attempt) ha, attempt, bind_of_ok ha]
  rfl

section Zoom

variable {τ ε' : Type} (get : σ → τ) (set : σ → τ → σ) (wrap : ε → ε')

/-- Run an action on a part of the state; its errors become errors of the whole. -/
def zoom (x : Action τ ε α) : Action σ ε' α := fun s =>
  ⟨(x (get s)).outcome.mapErr wrap, set s (x (get s)).state, (x (get s)).arith⟩

variable {get set wrap}

theorem zoom_err {x : Action τ ε α} {s : σ} {e : ε} (h : (x (get s)).outcome = .err e) :
    (zoom get set wrap x s).outcome = .err (wrap e) := by
  simp only [zoom, h, Outcome.mapErr]

theorem zoom_ok_iff {x : Action τ ε α} {s : σ} {a : α} :
    (zoom get set wrap x s).outcome = .ok a ↔ (x (get s)).outcome = .ok a :=
  Outcome.mapErr_ok_iff

/-- A block on a part of the state is a block of actions on that part. -/
theorem zoom_bind (hget : ∀ s t, get (set s t) = t) (hset : ∀ s t t', set (set s t) t' = set s t')
    (x : Action τ ε α) (f : α → Action τ ε β) :
    zoom get set wrap (x >>= f) = zoom get set wrap x >>= fun a => zoom get set wrap (f a) := by
  funext s
  cases hx : (x (get s)).outcome with
  | ok a =>
      rw [bind_of_ok (zoom_ok_iff.2 hx), zoom, bind_of_ok hx]
      simp only [zoom, hget, hset]
  | err e => simp only [zoom, Bind.bind, bind, hx, Outcome.mapErr]
  | panic => simp only [zoom, Bind.bind, bind, hx, Outcome.mapErr]

end Zoom

end Action
end Lib
