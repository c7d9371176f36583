import Mathlib

/-!
# Runs of a step function

A component driven by a sequence of operations is a step function `step : σ → ι → σ`; a run is
the fold of `step` over the operations.  Every "for every sequence of operations" statement is an
invariant of runs, and it is proved once here from its step lemma (`run_invariant`).

Some invariants are kept by every operation but one kind, in some states.  `Guarded G` says
that each operation of a run meets `G` in the state it is applied to, and `run_invariant_guarded`
carries such an invariant along every guarded run; `guarded_every_step` then gives what the
invariant says of one step at every step of the run.  An invariant may also name the operations
done so far, as "the buffer holds the messages seen so far" does: `run_invariant_prefix` carries
it with the prefix growing by one operation a step.

A loop whose body may fail is a fold in `Option`, and `foldlM_invariant` carries an invariant
along it when it succeeds; a loop that stops at its first error and keeps the state it reached
is `forUntilError`, with `forUntilError_invariant`.  A loop in `Except` that reads something for
each element is a traversal (`mapM`): `foldlM_read` splits a loop that folds what it reads into
the traversal and a plain fold, `mapM_eq_ok_iff` says when a traversal succeeds, and
`forM_eq_ok_iff` when a loop of checks passes.
-/

namespace Run

variable {σ ι : Type*} (step : σ → ι → σ)

/-- The state after applying `ops` one after another. -/
def run (s : σ) (ops : List ι) : σ :=
  ops.foldl step s

@[simp] lemma run_nil (s : σ) : run step s [] = s := rfl

@[simp] lemma run_cons (s : σ) (i : ι) (ops : List ι) :
    run step s (i :: ops) = run step (step s i) ops := rfl

lemma run_append (s : σ) (ops ops' : List ι) :
    run step s (ops ++ ops') = run step (run step s ops) ops' :=
  List.foldl_append

/-- Each operation of the run meets `G` in the state it is applied to. -/
def Guarded (G : σ → ι → Prop) : σ → List ι → Prop
  | _, [] => True
  | s, i :: ops => G s i ∧ Guarded G (step s i) ops

variable {step}

/-- An invariant of every step is an invariant of every run. -/
theorem run_invariant {P : σ → Prop} (hstep : ∀ s i, P s → P (step s i)) :
    ∀ (ops : List ι) {s : σ}, P s → P (run step s ops)
  | [], _, hs => hs
  | i :: ops, _, hs => run_invariant hstep ops (hstep _ i hs)

/-- An invariant of every step that meets `G` is an invariant of every run guarded by `G`. -/
theorem run_invariant_guarded {P : σ → Prop} {G : σ → ι → Prop}
    (hstep : ∀ s i, P s → G s i → P (step s i)) :
    ∀ (ops : List ι) {s : σ}, P s → Guarded step G s ops → P (run step s ops)
  | [], _, hs, _ => hs
  | i :: ops, _, hs, ⟨hg, hgs⟩ => run_invariant_guarded hstep ops (hstep _ i hs hg) hgs

/-- An invariant kept by every guarded step holds before each step of a guarded run, so what
holds of one step from a state of the invariant holds of every step the run takes. -/
theorem guarded_every_step {P : σ → Prop} {G Q : σ → ι → Prop}
    (hstep : ∀ s i, P s → G s i → P (step s i)) (hQ : ∀ s i, P s → G s i → Q s i) :
    ∀ (pre : List ι) (i : ι) (post : List ι) {s : σ}, P s → Guarded step G s (pre ++ i :: post) →
      Q (run step s pre) i
  | [], i, _, s, hs, ⟨hg, _⟩ => hQ s i hs hg
  | j :: pre, i, post, s, hs, ⟨hg, hgs⟩ =>
    guarded_every_step hstep hQ pre i post (hstep s j hs hg) hgs

instance decidableGuarded (G : σ → ι → Prop) [∀ s i, Decidable (G s i)] :
    ∀ s ops, Decidable (Guarded step G s ops)
  | _, [] => isTrue trivial
  | s, i :: ops =>
    haveI := decidableGuarded G (step s i) ops
    inferInstanceAs (Decidable (G s i ∧ Guarded step G (step s i) ops))

/-- An invariant of every step by an operation that meets `Q` is an invariant of every run made
of such operations. -/
theorem run_invariant_mem {P : σ → Prop} {Q : ι → Prop} (hstep : ∀ s i, P s → Q i → P (step s i)) :
    ∀ (ops : List ι) {s : σ}, P s → (∀ i ∈ ops, Q i) → P (run step s ops)
  | [], _, hs, _ => hs
  | i :: ops, _, hs, hq =>
    run_invariant_mem hstep ops (hstep _ i hs (hq i List.mem_cons_self))
      fun j hj => hq j (List.mem_cons_of_mem _ hj)

/-- **The prefix rule**: an invariant that names the operations done so far, kept by each
operation of the run that meets `Q`, holds after the run with the whole run as its index. -/
theorem run_invariant_prefix {I : List ι → σ → Prop} {Q : ι → Prop}
    (hstep : ∀ pre s i, Q i → I pre s → I (pre ++ [i]) (step s i)) (ops : List ι) {s : σ}
    (hq : ∀ i ∈ ops, Q i) (hs : I [] s) : I ops (run step s ops) := by
  -- from any prefix `pre`, the run ends at `pre ++ ops`
  suffices h : ∀ (ops pre : List ι) (s : σ), (∀ i ∈ ops, Q i) → I pre s →
      I (pre ++ ops) (run step s ops) from h ops [] s hq hs
  intro ops
  induction ops with
  | nil =>
    intro pre s _ hs
    simpa using hs
  | cons i ops ih =>
    intro pre s hq hs
    have hi := hstep pre s i (hq i List.mem_cons_self) hs
    simpa using ih (pre ++ [i]) (step s i) (fun j hj => hq j (List.mem_cons_of_mem _ hj)) hi

/-! ## Counted loops

Go's `for i := a; i < b; i++ { ... }` over a state is the run over the indices `a, ..., b - 1`.
Its invariant may mention the index: `forLoop_invariant` is the usual rule, from `P a` and a step
from `P i` to `P (i + 1)` for each `i` of the range.
-/

/-- `for i := a; i < b; i++ { s = body i s }`. -/
def forLoop (a b : ℕ) (body : ℕ → σ → σ) (s : σ) : σ :=
  run (fun s i => body i s) s (List.range' a (b - a))

variable {body : ℕ → σ → σ}

@[simp] lemma forLoop_self (a : ℕ) (s : σ) : forLoop a a body s = s := by
  simp [forLoop]

lemma forLoop_succ {a b : ℕ} (h : a ≤ b) (s : σ) :
    forLoop a (b + 1) body s = body b (forLoop a b body s) := by
  have hlen : b + 1 - a = (b - a) + 1 := by omega
  have hlast : a + 1 * (b - a) = b := by omega
  rw [forLoop, forLoop, hlen, List.range'_concat, run_append, hlast]
  rfl

/-- A body that does not read the counter is iterated `b - a` times. -/
lemma forLoop_iterate (a b : ℕ) (f : σ → σ) (s : σ) : forLoop a b (fun _ => f) s = f^[b - a] s := by
  unfold forLoop
  generalize b - a = n
  induction n generalizing a s with
  | zero => rfl
  | succ n ih => rw [List.range'_succ, run_cons, ih, Function.iterate_succ_apply]

/-- `g` with the indices `[lo, hi)` overwritten by `f`: a buffer after a loop has written it index
by index. -/
def window {α : Type*} (lo hi : ℕ) (f g : ℕ → α) : ℕ → α :=
  fun j => if lo ≤ j ∧ j < hi then f j else g j

@[simp] lemma window_self {α : Type*} (lo : ℕ) (f g : ℕ → α) : window lo lo f g = g := by
  funext j
  exact if_neg (by omega)

/-- One more write at the end of the window extends it. -/
lemma update_window {α : Type*} {lo hi : ℕ} (h : lo ≤ hi) (f g : ℕ → α) :
    Function.update (window lo hi f g) hi (f hi) = window lo (hi + 1) f g := by
  funext j
  by_cases hj : j = hi
  · subst hj
    simp [window, h]
  · simp only [Function.update_of_ne hj, window]
    congr 1
    apply propext
    omega

/-- A window written next to another, by a function that agrees there, extends it. -/
lemma window_window {α : Type*} {lo mid hi : ℕ} (h1 : lo ≤ mid) (h2 : mid ≤ hi) {f g : ℕ → α}
    (hfg : ∀ j, mid ≤ j → j < hi → f j = g j) (out : ℕ → α) :
    window mid hi f (window lo mid g out) = window lo hi g out := by
  funext j
  simp only [window]
  by_cases hm : mid ≤ j ∧ j < hi
  · rw [if_pos hm, if_pos ⟨by omega, hm.2⟩, hfg j hm.1 hm.2]
  · rw [if_neg hm]
    congr 1
    apply propext
    omega

/-- **The loop rule**: an invariant indexed by the loop counter holds at the end. -/
theorem forLoop_invariant {P : ℕ → σ → Prop} {a b : ℕ} (hab : a ≤ b) {s : σ} (h0 : P a s)
    (hstep : ∀ i s, a ≤ i → i < b → P i s → P (i + 1) (body i s)) :
    P b (forLoop a b body s) := by
  induction b, hab using Nat.le_induction with
  | base => rwa [forLoop_self]
  | succ b hab ih =>
    rw [forLoop_succ hab]
    exact hstep _ _ hab (by omega) (ih fun i s h1 h2 => hstep i s h1 (by omega))

/-! ## Loops that may fail -/

/-- An invariant of every step that succeeds holds after a loop over `Option` that succeeds. -/
theorem foldlM_invariant {α : Type*} {f : σ → α → Option σ} {P : σ → Prop}
    (hstep : ∀ s a s', P s → f s a = some s' → P s') :
    ∀ (l : List α) {s r : σ}, P s → l.foldlM f s = some r → P r
  | [], s, r, hs, h => by
    simp only [List.foldlM_nil, Option.pure_def, Option.some.injEq] at h
    exact h ▸ hs
  | a :: l, s, r, hs, h => by
    rw [List.foldlM_cons] at h
    cases hf : f s a with
    | none => simp [hf] at h
    | some s' =>
      rw [hf, Option.bind_eq_bind, Option.bind_some] at h
      exact foldlM_invariant hstep l (hstep s a s' hs hf) h

/-- An invariant that names the elements done so far, kept by every step that succeeds, holds
after a loop over `Except` that succeeds. -/
theorem foldlM_prefix {ε α : Type*} {f : σ → α → Except ε σ} {P : List α → σ → Prop}
    (hstep : ∀ p s a s', P p s → f s a = .ok s' → P (p ++ [a]) s') :
    ∀ (l p : List α) {s r : σ}, P p s → l.foldlM f s = .ok r → P (p ++ l) r
  | [], p, s, r, hs, h => by
    cases h
    simpa using hs
  | a :: l, p, s, r, hs, h => by
    rw [List.foldlM_cons] at h
    cases hf : f s a with
    | error e => rw [hf] at h; cases h
    | ok s' =>
      rw [hf] at h
      simpa using foldlM_prefix hstep l (p ++ [a]) (hstep p s a s' hs hf) h

/-- `for _, i := range l { if err := body(i); err != nil { return err } }` over a state that the
body changes whether it fails or not: the loop stops at the first error, keeping the state. -/
def forUntilError {ε : Type*} (body : ι → σ → σ × Except ε Unit) : List ι → σ → σ × Except ε Unit
  | [], s => (s, .ok ())
  | i :: l, s =>
    match body i s with
    | (s', .ok ()) => forUntilError body l s'
    | (s', .error e) => (s', .error e)

/-- An invariant of every run of the body, failed or not, holds after the loop. -/
theorem forUntilError_invariant {ε : Type*} {body : ι → σ → σ × Except ε Unit} {P : σ → Prop}
    (hstep : ∀ i s, P s → P (body i s).1) : ∀ (l : List ι) (s : σ), P s → P (forUntilError body l s).1
  | [], _, hs => hs
  | i :: l, s, hs => by
    have hi := hstep i s hs
    rw [forUntilError]
    rcases hb : body i s with ⟨s', _ | _⟩
    · rw [hb] at hi
      exact hi
    · rw [hb] at hi
      exact forUntilError_invariant hstep l s' hi

theorem forUntilError_cons_of_ok {ε : Type*} {body : ι → σ → σ × Except ε Unit} {i : ι}
    {s : σ} (h : (body i s).2 = .ok ()) (l : List ι) :
    forUntilError body (i :: l) s = forUntilError body l (body i s).1 := by
  rcases hb : body i s with ⟨s', r⟩
  rw [hb] at h
  subst h
  rw [forUntilError, hb]

/-- After its first element the loop has stopped, or goes on from where the body left it. -/
theorem forUntilError_cons_fst {ε : Type*} (body : ι → σ → σ × Except ε Unit) (i : ι)
    (l : List ι) (s : σ) :
    (forUntilError body (i :: l) s).1 = (body i s).1 ∨
      (forUntilError body (i :: l) s).1 = (forUntilError body l (body i s).1).1 := by
  rw [forUntilError]
  rcases body i s with ⟨s', _ | _⟩
  · exact .inl rfl
  · exact .inr rfl

/-- A loop whose body does nothing at any element does nothing. -/
theorem forUntilError_skip {ε : Type*} {body : ι → σ → σ × Except ε Unit} :
    ∀ (l : List ι), (∀ j ∈ l, ∀ s, body j s = (s, .ok ())) → ∀ s, forUntilError body l s = (s, .ok ())
  | [], _, _ => rfl
  | j :: l, hskip, s => by
    rw [forUntilError, hskip j List.mem_cons_self s]
    exact forUntilError_skip l (fun k hk => hskip k (List.mem_cons_of_mem _ hk)) s

/-- A loop over distinct elements whose body does nothing but at `i` is the body at `i`. -/
theorem forUntilError_single {ε : Type*} {body : ι → σ → σ × Except ε Unit} {i : ι} :
    ∀ {l : List ι}, i ∈ l → l.Nodup → (∀ j ∈ l, j ≠ i → ∀ s, body j s = (s, .ok ())) →
      ∀ s, forUntilError body l s = body i s
  | j :: l, hi, hnd, hskip, s => by
    obtain ⟨hj, hnd⟩ := List.nodup_cons.1 hnd
    by_cases hji : j = i
    · subst hji
      -- past `j` the body does nothing
      have hrest : ∀ k ∈ l, ∀ s, body k s = (s, .ok ()) :=
        fun k hk => hskip k (List.mem_cons_of_mem _ hk) (fun h => hj (h ▸ hk))
      rw [forUntilError]
      rcases body j s with ⟨s', _ | _⟩
      · rfl
      · exact forUntilError_skip l hrest s'
    · have hi' : i ∈ l := (List.mem_cons.1 hi).resolve_left (Ne.symm hji)
      rw [forUntilError, hskip j List.mem_cons_self hji s]
      exact forUntilError_single hi' hnd (fun k hk => hskip k (List.mem_cons_of_mem _ hk)) s

/-- A loop whose body keeps an invariant and does not fail from it does not fail. -/
theorem forUntilError_ok {ε : Type*} {body : ι → σ → σ × Except ε Unit} {P : σ → Prop}
    (hstep : ∀ i s, P s → (body i s).2 = .ok () ∧ P (body i s).1) :
    ∀ (l : List ι) (s : σ), P s →
      (forUntilError body l s).2 = .ok () ∧ P (forUntilError body l s).1
  | [], _, hs => ⟨rfl, hs⟩
  | i :: l, s, hs => by
    obtain ⟨hok, hi⟩ := hstep i s hs
    rw [forUntilError_cons_of_ok hok]
    exact forUntilError_ok hstep l _ hi

/-- A loop in `Except` whose body reads something for each element, stopping at the first
error, and then updates the state with it, is all the reads first and then a plain fold. -/
theorem foldlM_read {ε α β τ : Type} (read : α → Except ε β) (update : τ → β → τ) :
    ∀ (l : List α) (s : τ), l.foldlM (fun s a => do let b ← read a; pure (update s b)) s =
      (l.mapM read).map fun bs => bs.foldl update s
  | [], s => rfl
  | a :: l, s => by
    rw [List.foldlM_cons, List.mapM_cons]
    cases read a with
    | error e => rfl
    | ok b =>
      change l.foldlM _ (update s b) = _
      rw [foldlM_read read update l (update s b)]
      cases l.mapM read <;> rfl

/-- A loop of checks in `Except` passes exactly when each check passes. -/
theorem forM_eq_ok_iff {ε α : Type*} (f : α → Except ε PUnit) :
    ∀ l : List α, l.forM f = .ok () ↔ ∀ a ∈ l, f a = .ok ()
  | [] => by simp only [List.forM, List.not_mem_nil, false_imp_iff, imp_true_iff, iff_true]; rfl
  | a :: l => by
    rw [List.forM, List.forall_mem_cons, ← forM_eq_ok_iff f l]
    cases f a with
    | error e => simp only [reduceCtorEq, false_and, iff_false]; rintro ⟨⟩
    | ok u => exact ⟨fun h => ⟨rfl, h⟩, fun h => h.2⟩

/-- A step in `Except` that succeeds took the result of the step before it. -/
theorem bind_eq_ok_iff {ε α β : Type} {x : Except ε α} {f : α → Except ε β} {b : β} :
    (x >>= f) = .ok b ↔ ∃ a, x = .ok a ∧ f a = .ok b := by
  cases x <;> simp [bind, Except.bind]

theorem map_eq_ok_iff {ε α β : Type} {x : Except ε α} {f : α → β} {b : β} :
    x.map f = .ok b ↔ ∃ a, x = .ok a ∧ f a = b := by
  cases x <;> simp [Except.map]

theorem mapError_eq_ok_iff {ε ε' α : Type} {x : Except ε α} {f : ε → ε'} {a : α} :
    x.mapError f = .ok a ↔ x = .ok a := by
  cases x <;> simp [Except.mapError]

/-- Two checks in a row pass exactly when each passes. -/
theorem seq_eq_ok_iff {ε : Type*} (x y : Except ε PUnit) :
    (x >>= fun _ => y) = .ok () ↔ x = .ok () ∧ y = .ok () := by
  cases x <;> simp [bind, Except.bind]

/-- A traversal in `Except` succeeds exactly when it reads each element to the one at its
position. -/
theorem mapM_eq_ok_iff {ε α β : Type} (f : α → Except ε β) :
    ∀ (l : List α) (bs : List β), l.mapM f = .ok bs ↔ List.Forall₂ (fun a b => f a = .ok b) l bs
  | [], bs => by
    cases bs <;> simp [pure, Except.pure]
  | a :: l, bs => by
    rw [List.mapM_cons]
    cases hf : f a with
    | error e => cases bs <;> simp [bind, Except.bind, hf]
    | ok b =>
      cases hl : l.mapM f with
      | error e =>
        -- the tail fails, so no list is read from it
        have hnot : ∀ bs, ¬List.Forall₂ (fun a b => f a = .ok b) l bs := fun bs h => by
          rw [← mapM_eq_ok_iff f l, hl] at h
          cases h
        cases bs <;> simp [bind, Except.bind, hf, hnot]
      | ok bs' =>
        cases bs <;> simp [bind, Except.bind, pure, Except.pure, ← mapM_eq_ok_iff f l, hl, hf]

/-- What each element read satisfies holds of every element of the list read. -/
theorem forall_mem_of_forall₂ {α β : Type*} {R : α → β → Prop} {Q : β → Prop}
    (hQ : ∀ a b, R a b → Q b) : ∀ {l₁ : List α} {l₂ : List β}, List.Forall₂ R l₁ l₂ → ∀ b ∈ l₂, Q b
  | _, _, .nil, _, hb => absurd hb List.not_mem_nil
  | _, _, .cons hab h, b, hb => by
    rcases List.mem_cons.mp hb with rfl | hb
    · exact hQ _ _ hab
    · exact forall_mem_of_forall₂ hQ h b hb

/-- Each element of the first list is related to one of the second. -/
theorem exists_of_forall₂_mem {α β : Type*} {R : α → β → Prop} :
    ∀ {l₁ : List α} {l₂ : List β}, List.Forall₂ R l₁ l₂ → ∀ a ∈ l₁, ∃ b ∈ l₂, R a b
  | _, _, .nil, _, ha => absurd ha List.not_mem_nil
  | _, _, .cons hab h, a, ha => by
    rcases List.mem_cons.mp ha with rfl | ha
    · exact ⟨_, List.mem_cons_self, hab⟩
    · obtain ⟨b, hb, hr⟩ := exists_of_forall₂_mem h a ha
      exact ⟨b, List.mem_cons_of_mem _ hb, hr⟩

/-- What a successful traversal reads at a position is what the function gives for the
element there. -/
theorem mapM_ok_getElem? {ε α β : Type} {f : α → Except ε β} {l : List α} {bs : List β}
    (h : l.mapM f = .ok bs) {i : ℕ} {a : α} (ha : l[i]? = some a) :
    ∃ b, bs[i]? = some b ∧ f a = .ok b := by
  obtain ⟨hlen, hget⟩ := List.forall₂_iff_get.mp ((mapM_eq_ok_iff f l bs).mp h)
  obtain ⟨hi, rfl⟩ := List.getElem?_eq_some_iff.mp ha
  exact ⟨bs[i], List.getElem?_eq_getElem (hlen ▸ hi), hget i hi (hlen ▸ hi)⟩

theorem mapM_ok_of_mem {ε α β : Type} {f : α → Except ε β} {l : List α} {bs : List β}
    (h : l.mapM f = .ok bs) {a : α} (ha : a ∈ l) : ∃ b, f a = .ok b := by
  obtain ⟨i, hi, rfl⟩ := List.getElem_of_mem ha
  obtain ⟨b, -, hb⟩ := mapM_ok_getElem? h (List.getElem?_eq_getElem hi)
  exact ⟨b, hb⟩

/-- A traversal in `Option` that reads each element as `g` does is `g` mapped. -/
theorem mapM_option_eq_some_map {α β : Type} {f : α → Option β} {g : α → β} :
    ∀ {l : List α}, (∀ a ∈ l, f a = some (g a)) → l.mapM f = some (l.map g)
  | [], _ => rfl
  | a :: l, h => by
    rw [List.mapM_cons, h a List.mem_cons_self,
      mapM_option_eq_some_map fun a' ha' => h a' (List.mem_cons_of_mem a ha')]
    rfl

/-- A traversal in `Option` that fails on one element fails. -/
theorem mapM_option_eq_none {α β : Type} {f : α → Option β} :
    ∀ {l : List α} {a : α}, a ∈ l → f a = none → l.mapM f = none
  | a' :: l, a, ha, hf => by
    rw [List.mapM_cons]
    rcases List.mem_cons.mp ha with rfl | ha
    · simp [hf]
    · cases f a' with
      | none => rfl
      | some b => simp [mapM_option_eq_none ha hf]

/-- A traversal in `Except` that reads each element succeeds. -/
theorem mapM_ok_of_forall {ε α β : Type} {f : α → Except ε β} :
    ∀ {l : List α}, (∀ a ∈ l, ∃ b, f a = .ok b) → ∃ bs, l.mapM f = .ok bs
  | [], _ => ⟨[], rfl⟩
  | a :: l, h => by
    obtain ⟨b, hb⟩ := h a List.mem_cons_self
    obtain ⟨bs, hbs⟩ := mapM_ok_of_forall fun a' ha' => h a' (List.mem_cons_of_mem a ha')
    refine ⟨b :: bs, ?_⟩
    rw [List.mapM_cons, hb, hbs]
    rfl

/-- `for i, a := range l` with a body in `Except`: an invariant `I i` of the state before element
`i` that each successful pass of the body keeps holds after a loop that succeeds. -/
theorem foldlM_zipIdx_invariant {ε α τ : Type} {f : τ → α × ℕ → Except ε τ} {I : ℕ → τ → Prop} :
    ∀ (l : List α) (k : ℕ) {s r : τ},
      (∀ i (hi : i < l.length) s s', I (k + i) s → f s (l[i], k + i) = .ok s' →
        I (k + i + 1) s') →
      I k s → (l.zipIdx k).foldlM f s = .ok r → I (k + l.length) r
  | [], k, s, r, _, hs, h => by
    cases h
    exact hs
  | a :: l, k, s, r, hstep, hs, h => by
    rw [List.zipIdx_cons, List.foldlM_cons, bind_eq_ok_iff] at h
    obtain ⟨s', hs', h⟩ := h
    have h₁ : I (k + 1) s' := hstep 0 (Nat.succ_pos _) s s' hs hs'
    -- the rest of the list, its positions shifted by one
    have hrest := foldlM_zipIdx_invariant l (k + 1) (fun i hi t t' ht hf => by
      have hpos : k + 1 + i = k + (i + 1) := by omega
      rw [hpos] at ht hf ⊢
      exact hstep (i + 1) (Nat.succ_lt_succ hi) t t' ht hf) h₁ h
    rwa [List.length_cons, ← Nat.add_assoc, Nat.add_right_comm]

/-! ## Loops left by `break` or `return`

A `for { ... }` loop with no condition: each pass goes on from a new state (`.inl`) or leaves
the loop with a result (`.inr`).  It may run for ever, so `loopFuel` runs at most `n` passes,
`none` standing for a loop still running.  What it returns was returned by a pass from a state
the passes that went on reach (`loopFuel_eq_some`), and when each pass that goes on advances a
counter by one, the counter singles out the state of each pass (`Passes.eq_of_count`). -/

section Loop

variable {β : Type*} (body : σ → σ ⊕ β)

/-- At most `n` passes of the loop from `s`: what it returns, or `none` if it is still running. -/
def loopFuel : ℕ → σ → Option β
  | 0, _ => none
  | n + 1, s =>
    match body s with
    | .inl s' => loopFuel n s'
    | .inr b => some b

/-- `t` is reached from `s` by passes that go on. -/
def Passes : σ → σ → Prop :=
  Relation.ReflTransGen fun s s' => body s = .inl s'

theorem loopFuel_eq_some {b : β} :
    ∀ (n : ℕ) (s : σ), loopFuel body n s = some b → ∃ t, Passes body s t ∧ body t = .inr b
  | 0, s, h => by cases h
  | n + 1, s, h => by
    cases hb : body s with
    | inl s' =>
      simp only [loopFuel, hb] at h
      obtain ⟨t, ht, hbt⟩ := loopFuel_eq_some n s' h
      exact ⟨t, Relation.ReflTransGen.head hb ht, hbt⟩
    | inr b' =>
      simp only [loopFuel, hb, Option.some.injEq] at h
      exact ⟨s, Relation.ReflTransGen.refl, h ▸ hb⟩

variable {body}

lemma loopFuel_succ_of_inl {n : ℕ} {s s' : σ} (h : body s = .inl s') :
    loopFuel body (n + 1) s = loopFuel body n s' := by
  simp only [loopFuel, h]

lemma loopFuel_succ_of_inr {n : ℕ} {s : σ} {b : β} (h : body s = .inr b) :
    loopFuel body (n + 1) s = some b := by
  simp only [loopFuel, h]

/-- **A loop whose passes that go on lower a measure ends.**  From a state of an invariant that
such passes keep, a loop given more fuel than the measure leaves by itself. -/
theorem loopFuel_of_measure {I : σ → Prop} (μ : σ → ℕ)
    (hstep : ∀ s s', I s → body s = .inl s' → I s' ∧ μ s' < μ s) :
    ∀ (n : ℕ) (s : σ), I s → μ s < n → ∃ b, loopFuel body n s = some b
  | 0, _, _, h => absurd h (Nat.not_lt_zero _)
  | n + 1, s, hs, hlt => by
    cases hb : body s with
    | inl s' =>
      obtain ⟨hs', hμ⟩ := hstep s s' hs hb
      obtain ⟨b, h⟩ := loopFuel_of_measure μ hstep n s' hs' (by omega)
      exact ⟨b, (loopFuel_succ_of_inl hb).trans h⟩
    | inr b => exact ⟨b, loopFuel_succ_of_inr hb⟩

section Count

variable {count : σ → ℕ} (hcount : ∀ s s', body s = .inl s' → count s' = count s + 1)
include hcount

/-- Along passes that advance a counter, a state reached is the start or has a larger count. -/
theorem Passes.count_lt {s t : σ} (h : Passes body s t) : s = t ∨ count s < count t := by
  induction h with
  | refl => exact .inl rfl
  | tail _ hbc ih =>
    right
    rw [hcount _ _ hbc]
    rcases ih with rfl | hlt <;> omega

/-- The passes from one state go one way only, so two states they reach with the same count are
one state. -/
theorem Passes.eq_of_count {s t t' : σ} (h : Passes body s t) (h' : Passes body s t')
    (hc : count t = count t') : t = t' := by
  have hU : Relator.RightUnique fun s s' => body s = .inl s' :=
    fun a b c hab hac => Sum.inl.inj (hab.symm.trans hac)
  rcases Relation.ReflTransGen.total_of_right_unique hU h h' with htt | htt
  · rcases Passes.count_lt hcount htt with heq | hlt
    · exact heq
    · omega
  · rcases Passes.count_lt hcount htt with heq | hlt
    · exact heq.symm
    · omega

end Count

end Loop

end Run
