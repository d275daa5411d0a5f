import Mathlib.Data.List.Forall2
import Mathlib.Data.List.Basic
import Mathlib.Tactic.Common

/-!
# Outcomes of Go calls

A Go function that returns `(T, error)` ends in one of three ways: it returns a value, it returns
an error, or it panics (an index out of range, a nil dereference).  `Result` keeps the three apart.
Loops over slices whose body may fail are `checkAll` (no state), `loop` (state threaded through) and
`mapLoop` (one result per element).
-/

namespace Aperod.Go

/-- The two ways a Go call can end without a value. -/
inductive Fault
  | error (msg : String)
  | panic
  deriving DecidableEq, Repr

/-- The outcome of a Go call. -/
abbrev Result (α : Type) := Except Fault α

variable {α β σ τ : Type}

/-- `return …, fmt.Errorf(msg)`. -/
def fail (msg : String) : Result α := .error (.error msg)

/-- `fmt.Errorf("pre: %w", err)`: the caller's text in front of the callee's. -/
def wrap (pre : String) : Result α → Result α
  | .error (.error msg) => .error (.error (pre ++ ": " ++ msg))
  | r => r

/-- `if c { return fmt.Errorf(msg) }`. -/
def failIf (c : Prop) [Decidable c] (msg : String) : Result Unit :=
  if c then fail msg else .ok ()

/-- `if a, ok := o; ok { return fmt.Errorf(msg) }`. -/
def failSome (o : Option α) (msg : α → String) : Result Unit :=
  match o with
  | some a => fail (msg a)
  | none => .ok ()

/-- A test of a value that is there; without it a finite type would be searched for the value. -/
instance (priority := high) decidableExistsMemOption {p : α → Prop} [DecidablePred p] :
    (o : Option α) → Decidable (∃ a ∈ o, p a)
  | none => isFalse fun ⟨_, h, _⟩ => nomatch h
  | some a => decidable_of_iff (p a) ⟨fun h => ⟨a, rfl, h⟩, fun ⟨_, h, hp⟩ => Option.some.inj h ▸ hp⟩

/-- The slice access `l[i]`. -/
def index (l : List α) (i : Nat) : Result α :=
  match l[i]? with
  | some a => .ok a
  | none => .error .panic

/-- A pointer dereference; `nil` is `none`. -/
def deref : Option α → Result α
  | some a => .ok a
  | none => .error .panic

/-- `if err != nil { …; return err }` in a method that changes its receiver: go on with the value, or
stop and leave the receiver in the state `left`. -/
def orLeave (left : σ) (r : Result α) : Except (σ × Fault) α :=
  match r with
  | .ok a => .ok a
  | .error err => .error (left, err)

/-- `for i, x := range l { if err := f(i, x); err != nil { return err } }`, counting from `i`. -/
def checkAll (f : Nat → α → Result Unit) : Nat → List α → Result Unit
  | _, [] => .ok ()
  | i, x :: xs => do f i x; checkAll f (i + 1) xs

/-- The same loop with local variables `s` that the body updates. -/
def loop (f : Nat → α → σ → Result σ) : Nat → List α → σ → Result σ
  | _, [], s => .ok s
  | i, x :: xs, s => do
    let s' ← f i x s
    loop f (i + 1) xs s'

/-- `for i, x := range l { y, err := f(i, x); …; ys[i] = y }`. -/
def mapLoop (f : Nat → α → Result β) : Nat → List α → Result (List β)
  | _, [] => .ok []
  | i, x :: xs => do
    let y ← f i x
    let ys ← mapLoop f (i + 1) xs
    .ok (y :: ys)

/-! ### Successful outcomes -/

theorem bind_eq_ok {ε : Type} {r : Except ε α} {f : α → Except ε β} {b : β} :
    (r >>= f) = .ok b ↔ ∃ a, r = .ok a ∧ f a = .ok b := by
  cases r with
  | error e => simp [bind, Except.bind]
  | ok a => simp [bind, Except.bind]

/-- The first step of a `do` block that succeeded, and the rest of it. -/
theorem unbind {ε : Type} {r : Except ε α} {f : α → Except ε β} {b : β} (h : (r >>= f) = .ok b) :
    ∃ a, r = .ok a ∧ f a = .ok b :=
  bind_eq_ok.mp h

theorem bind_ok {ε : Type} {r : Except ε α} {f : α → Except ε β} {a : α} {b : β} (hr : r = .ok a)
    (h : f a = .ok b) : (r >>= f) = .ok b :=
  bind_eq_ok.mpr ⟨a, hr, h⟩

theorem pass {ε : Type} {r : Except ε Unit} {f : Unit → Except ε β} {b : β} (hr : r = .ok ())
    (h : f () = .ok b) : (r >>= f) = .ok b :=
  bind_ok hr h

/-- What follows a check that passed. -/
theorem past {ε : Type} {r : Except ε Unit} {f : Unit → Except ε β} {b : β}
    (h : (r >>= f) = .ok b) : f () = .ok b := by
  obtain ⟨⟨⟩, -, h⟩ := unbind h
  exact h

theorem bind_eq_error {ε : Type} {r : Except ε α} {f : α → Except ε β} {e : ε} :
    (r >>= f) = .error e ↔ r = .error e ∨ ∃ a, r = .ok a ∧ f a = .error e := by
  cases r with
  | error e' => simp [bind, Except.bind]
  | ok a => simp [bind, Except.bind]

@[simp] theorem ok_bind (a : α) (f : α → Result β) : ((.ok a : Result α) >>= f) = f a := rfl

@[simp] theorem error_bind (e : Fault) (f : α → Result β) :
    ((.error e : Result α) >>= f) = .error e := rfl

@[simp] theorem fail_ne_ok (msg : String) (a : α) : (fail msg : Result α) ≠ .ok a := by
  simp [fail]

@[simp] theorem wrap_eq_ok {pre : String} {r : Result α} {a : α} :
    wrap pre r = .ok a ↔ r = .ok a := by
  rcases r with (msg | _) | b <;> simp [wrap]

@[simp] theorem failIf_eq_ok {c : Prop} [Decidable c] {msg : String} {u : Unit} :
    failIf c msg = .ok u ↔ ¬ c := by
  unfold failIf
  split_ifs with h <;> simp [h]

@[simp] theorem failSome_eq_ok {o : Option α} {msg : α → String} {u : Unit} :
    failSome o msg = .ok u ↔ o = none := by
  cases o <;> simp [failSome]

theorem index_eq_ok {l : List α} {i : Nat} {a : α} : index l i = .ok a ↔ l[i]? = some a := by
  unfold index
  split <;> simp [*]

theorem deref_eq_ok {o : Option α} {a : α} : deref o = .ok a ↔ o = some a := by
  cases o <;> simp [deref]

theorem orLeave_eq_error {left left' : σ} {r : Result α} {err : Fault} :
    orLeave left r = .error (left', err) ↔ r = .error err ∧ left' = left := by
  cases r <;> simp [orLeave, eq_comm, and_comm]

@[simp] theorem orLeave_eq_ok {left : σ} {r : Result α} {a : α} :
    orLeave left r = .ok a ↔ r = .ok a := by
  cases r <;> simp [orLeave]

/-! ### Related outcomes -/

theorem bind_congr_ok {r : Result α} {f g : α → Result β} (h : ∀ a, r = .ok a → f a = g a) :
    r >>= f = r >>= g := by
  cases r with
  | error e => rfl
  | ok a => exact h a rfl

theorem map_bind_eq {γ : Type} (g : β → γ) (r : Result α) (f : α → Result β) :
    (r >>= f).map g = r >>= fun a => (f a).map g := by
  cases r <;> rfl

theorem bind_map_eq {γ : Type} (g : α → γ) (r : Result α) (f : γ → Result β) :
    r.map g >>= f = r >>= fun a => f (g a) := by
  cases r <;> rfl

/-! ### Loops -/

theorem checkAll_eq_ok_iff {f : Nat → α → Result Unit} {l : List α} {i : Nat} :
    checkAll f i l = .ok () ↔ ∀ k x, l[k]? = some x → f (i + k) x = .ok () := by
  induction l generalizing i with
  | nil => simp [checkAll]
  | cons y ys ih =>
    simp only [checkAll, bind_eq_ok, ih]
    constructor
    · rintro ⟨⟨⟩, hy, hys⟩ k x hk
      cases k with
      | zero => simp only [List.getElem?_cons_zero, Option.some.injEq] at hk; exact hk ▸ hy
      | succ k =>
        rw [← Nat.succ_add_eq_add_succ]
        exact hys k x (by simpa using hk)
    · intro h
      refine ⟨(), by simpa using h 0 y rfl, fun k x hk => ?_⟩
      rw [Nat.succ_add_eq_add_succ]
      exact h (k + 1) x (by simpa using hk)

/-- The form used where the body does not read the index. -/
theorem checkAll_mem {f : Nat → α → Result Unit} {l : List α} {i : Nat}
    (h : checkAll f i l = .ok ()) {x : α} (hx : x ∈ l) : ∃ k, f k x = .ok () := by
  obtain ⟨k, hk⟩ := List.mem_iff_getElem?.mp hx
  exact ⟨i + k, checkAll_eq_ok_iff.mp h k x hk⟩

@[simp] theorem loop_nil (f : Nat → α → σ → Result σ) (i : Nat) (s : σ) :
    loop f i [] s = .ok s := rfl

theorem loop_cons_eq_ok {f : Nat → α → σ → Result σ} {i : Nat} {x : α} {xs : List α} {s t : σ} :
    loop f i (x :: xs) s = .ok t ↔ ∃ s', f i x s = .ok s' ∧ loop f (i + 1) xs s' = .ok t :=
  bind_eq_ok

/-- **Invariant rule** for a state loop: what every successful iteration over an element of the
slice keeps, the loop keeps. -/
theorem loop_invariant {f : Nat → α → σ → Result σ} (I : σ → Prop) {l : List α} {i : Nat} {s t : σ}
    (hstep : ∀ k x s s', x ∈ l → I s → f k x s = .ok s' → I s')
    (h : loop f i l s = .ok t) (hs : I s) : I t := by
  induction l generalizing i s with
  | nil => cases h; exact hs
  | cons y ys ih =>
    obtain ⟨s', hy, hys⟩ := loop_cons_eq_ok.mp h
    exact ih (fun k x a b hx => hstep k x a b (List.mem_cons_of_mem _ hx)) hys
      (hstep i y s s' List.mem_cons_self hs hy)

theorem loop_mem {f : Nat → α → σ → Result σ} {l : List α} {i : Nat} {s t : σ} {x : α}
    (h : loop f i l s = .ok t) (hx : x ∈ l) : ∃ k a b, f k x a = .ok b := by
  induction l generalizing i s with
  | nil => exact absurd hx List.not_mem_nil
  | cons y ys ih =>
    obtain ⟨s', hy, hys⟩ := loop_cons_eq_ok.mp h
    rcases List.mem_cons.mp hx with rfl | hx
    · exact ⟨i, s, s', hy⟩
    · exact ih hys hx

theorem mapLoop_cons_eq_ok {f : Nat → α → Result β} {i : Nat} {x : α} {xs : List α} {l : List β} :
    mapLoop f i (x :: xs) = .ok l ↔
      ∃ y ys, f i x = .ok y ∧ mapLoop f (i + 1) xs = .ok ys ∧ l = y :: ys := by
  simp only [mapLoop, bind_eq_ok, Except.ok.injEq]
  constructor
  · rintro ⟨y, hy, ys, hys, rfl⟩
    exact ⟨y, ys, hy, hys, rfl⟩
  · rintro ⟨y, ys, hy, hys, rfl⟩
    exact ⟨y, hy, ys, hys, rfl⟩

theorem mapLoop_map {γ : Type} {f : Nat → α → Result β} {g : β → γ} {h : α → γ}
    (hfield : ∀ k x y, f k x = .ok y → g y = h x) {i : Nat} {l : List α} {ys : List β}
    (hl : mapLoop f i l = .ok ys) : ys.map g = l.map h := by
  induction l generalizing i ys with
  | nil => cases hl; rfl
  | cons x xs ih =>
    obtain ⟨y, zs, hy, hzs, rfl⟩ := mapLoop_cons_eq_ok.mp hl
    rw [List.map_cons, List.map_cons, hfield i x y hy, ih hzs]

theorem mapLoop_length {f : Nat → α → Result β} {i : Nat} {l : List α} {ys : List β}
    (h : mapLoop f i l = .ok ys) : ys.length = l.length := by
  simpa using congrArg List.length
    (mapLoop_map (h := fun _ => ()) (fun _ _ _ _ => rfl) h)

theorem mapLoop_mem {f : Nat → α → Result β} {i : Nat} {l : List α} {ys : List β}
    (h : mapLoop f i l = .ok ys) {y : β} (hy : y ∈ ys) : ∃ k, ∃ x ∈ l, f k x = .ok y := by
  induction l generalizing i ys with
  | nil =>
    cases h
    exact absurd hy List.not_mem_nil
  | cons x xs ih =>
    obtain ⟨z, zs, hz, hzs, rfl⟩ := mapLoop_cons_eq_ok.mp h
    rcases List.mem_cons.mp hy with rfl | hy
    · exact ⟨i, x, List.mem_cons_self, hz⟩
    · obtain ⟨k, x', hx', hf⟩ := ih hzs hy
      exact ⟨k, x', List.mem_cons_of_mem _ hx', hf⟩

theorem mapLoop_getElem? {f : Nat → α → Result β} {i : Nat} {l : List α} {ys : List β}
    (h : mapLoop f i l = .ok ys) {k : Nat} {x : α} (hk : l[k]? = some x) :
    ∃ y, ys[k]? = some y ∧ f (i + k) x = .ok y := by
  induction l generalizing i ys k with
  | nil => simp at hk
  | cons z zs ih =>
    obtain ⟨y, ys', hy, hys, rfl⟩ := mapLoop_cons_eq_ok.mp h
    cases k with
    | zero =>
      have hx : z = x := by simpa using hk
      exact ⟨y, rfl, hx ▸ hy⟩
    | succ k =>
      obtain ⟨y', hy', hf⟩ := ih hys (by simpa using hk)
      refine ⟨y', by simpa using hy', ?_⟩
      rw [← Nat.succ_add_eq_add_succ]
      exact hf

theorem mapLoop_forall₂ {g : α → Result β} {l : List α} {i : Nat} {ys : List β} :
    mapLoop (fun _ => g) i l = .ok ys ↔ List.Forall₂ (fun x y => g x = .ok y) l ys := by
  induction l generalizing i ys with
  | nil => simp [mapLoop, eq_comm]
  | cons x l ih => simp only [mapLoop_cons_eq_ok, List.forall₂_cons_left_iff, ih]

theorem exists_forall₂_iff {R : α → β → Prop} {l : List α} :
    (∃ l', List.Forall₂ R l l') ↔ ∀ a ∈ l, ∃ b, R a b := by
  induction l with
  | nil => simp
  | cons a l ih =>
    rw [List.forall_mem_cons, ← ih]
    constructor
    · rintro ⟨_, hl⟩
      obtain ⟨b, l', hb, hl', -⟩ := List.forall₂_cons_left_iff.mp hl
      exact ⟨⟨b, hb⟩, l', hl'⟩
    · rintro ⟨⟨b, hb⟩, l', hl'⟩
      exact ⟨b :: l', .cons hb hl'⟩

theorem exists_left_of_forall₂ {R : α → β → Prop} {l : List α} {l' : List β} {b : β}
    (h : List.Forall₂ R l l') (hb : b ∈ l') : ∃ a ∈ l, R a b := by
  obtain ⟨i, hi, rfl⟩ := List.getElem_of_mem hb
  exact ⟨_, List.getElem_mem (h.length_eq ▸ hi), h.get _ hi⟩

theorem exists_mapLoop_iff {g : α → Result β} {l : List α} {i : Nat} :
    (∃ ys, mapLoop (fun _ => g) i l = .ok ys) ↔ ∀ x ∈ l, ∃ y, g x = .ok y := by
  simp only [mapLoop_forall₂, exists_forall₂_iff]

/-- **Lockstep rule.**  The loop `f` went through, and `g` runs over the same slice.  If in related
states an iteration of `g` succeeds exactly under `P`, a condition on the elements so far and this
one, and leaves related states, then `g` goes through exactly if `P` holds at every element. -/
theorem loop_lockstep {f : Nat → α → σ → Result σ} {g : Nat → α → τ → Result τ}
    (Sim : List α → σ → τ → Prop) (P : List α → α → Prop)
    (hstep : ∀ pre i j x s s' t, Sim pre s t → f i x s = .ok s' →
      ((∃ t', g j x t = .ok t') ↔ P pre x) ∧ ∀ t', g j x t = .ok t' → Sim (pre ++ [x]) s' t')
    {l : List α} {i j : Nat} {s s' : σ} {t : τ} (h : loop f i l s = .ok s') (hsim : Sim [] s t) :
    (∃ t', loop g j l t = .ok t') ↔ ∀ pre x post, l = pre ++ x :: post → P pre x := by
  -- the induction moves elements from `l` to the ones before it
  suffices key : ∀ before, Sim before s t → ((∃ t', loop g j l t = .ok t') ↔
      ∀ pre x post, l = pre ++ x :: post → P (before ++ pre) x) by
    simpa using key [] hsim
  clear hsim
  induction l generalizing i j s t with
  | nil => simp
  | cons y ys ih =>
    intro before hsim
    obtain ⟨s1, hy, hys⟩ := loop_cons_eq_ok.mp h
    obtain ⟨hiff, hkeep⟩ := hstep before i j y s s1 t hsim hy
    constructor
    · rintro ⟨t', ht'⟩ pre x post heq
      obtain ⟨t1, ht1, hrest⟩ := loop_cons_eq_ok.mp ht'
      rcases pre with _ | ⟨z, pre⟩
      · obtain ⟨rfl, -⟩ := List.cons.inj heq
        simpa using hiff.mp ⟨t1, ht1⟩
      · obtain ⟨rfl, htail⟩ := List.cons.inj heq
        simpa using (ih hys _ (hkeep t1 ht1)).mp ⟨t', hrest⟩ pre x post htail
    · intro hP
      obtain ⟨t1, ht1⟩ := hiff.mpr (by simpa using hP [] y ys rfl)
      obtain ⟨t', hrest⟩ := (ih hys _ (hkeep t1 ht1)).mpr fun pre x post heq => by
        simpa using hP (y :: pre) x post (by rw [heq, List.cons_append])
      exact ⟨t', loop_cons_eq_ok.mpr ⟨t1, ht1, hrest⟩⟩

theorem exists_of_isOk {α : Type} {r : Result α} (h : r.isOk = true) : ∃ a, r = .ok a := by
  cases r with
  | ok a => exact ⟨a, rfl⟩
  | error err => cases h

theorem exists_ok_of_test {α : Type} {r : Result α} {p : α → Prop} [DecidablePred p]
    (h : (match r with | .ok a => decide (p a) | .error _ => false) = true) :
    ∃ a, r = .ok a ∧ p a := by
  cases r with
  | ok a => exact ⟨a, rfl, of_decide_eq_true h⟩
  | error e => exact absurd h Bool.false_ne_true

end Aperod.Go
