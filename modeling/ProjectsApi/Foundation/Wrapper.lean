import ProjectsApi.Foundation.Program

/-!
# Programs behind a wrapper

A wrapper stands between a program and its environment: it keeps a state of its own and
replaces each operation of the program by another one.  `Traced.of_wrap` is the rule for it: a
run of the wrapped program is a run of the program alone, as long as each replaced operation
does what the program's own would have done, up to a relation between the two environments.
-/

namespace Foundation.Program

variable {Op : Type} {Ans : Op → Type} {α β σ : Type}

/-! ## Runs of parts -/

section Parts

variable {exec : σ → (op : Op) → Ans op → σ → Prop}

theorem traced_done_iff {s s' : σ} {value value' : α} {ops : List ((op : Op) × Ans op)} :
    Traced exec s (.done value) ops value' s' ↔ ops = [] ∧ value' = value ∧ s' = s := by
  constructor
  · intro h
    cases h
    exact ⟨rfl, rfl, rfl⟩
  · intro h
    obtain ⟨rfl, rfl, rfl⟩ := h
    exact .done _ _

theorem traced_call_iff {s s'' : σ} {op : Op} {next : Ans op → Program Op Ans α} {value : α}
    {ops : List ((op : Op) × Ans op)} :
    Traced exec s (.call op next) ops value s'' ↔
      ∃ answer s' rest, ops = ⟨op, answer⟩ :: rest ∧ exec s op answer s' ∧
        Traced exec s' (next answer) rest value s'' := by
  constructor
  · intro h
    cases h with
    | call hexec hnext => exact ⟨_, _, _, rfl, hexec, hnext⟩
  · intro h
    obtain ⟨answer, s', rest, rfl, hexec, hnext⟩ := h
    exact .call hexec hnext

theorem traced_bind_iff {s s'' : σ} {p : Program Op Ans α} {f : α → Program Op Ans β}
    {value : β} {ops : List ((op : Op) × Ans op)} :
    Traced exec s (p >>= f) ops value s'' ↔
      ∃ mid s' first second, ops = first ++ second ∧ Traced exec s p first mid s' ∧
        Traced exec s' (f mid) second value s'' := by
  induction p generalizing s ops with
  | done mid =>
      rw [done_bind]
      constructor
      · intro h
        exact ⟨mid, s, [], ops, rfl, .done s mid, h⟩
      · intro h
        obtain ⟨mid', s', first, second, rfl, hmid, hrest⟩ := h
        obtain ⟨rfl, rfl, rfl⟩ := traced_done_iff.mp hmid
        exact hrest
  | call op next ih =>
      rw [call_bind, traced_call_iff]
      constructor
      · intro h
        obtain ⟨answer, s', rest, rfl, hexec, hnext⟩ := h
        obtain ⟨mid, s₁, first, second, rfl, hfirst, hsecond⟩ := (ih answer).mp hnext
        exact ⟨mid, s₁, ⟨op, answer⟩ :: first, second, rfl, .call hexec hfirst, hsecond⟩
      · intro h
        obtain ⟨mid, s₁, first, second, rfl, hfirst, hsecond⟩ := h
        obtain ⟨answer, s', rest, rfl, hexec, hnext⟩ := traced_call_iff.mp hfirst
        exact ⟨answer, s', rest ++ second, rfl, hexec,
          (ih answer).mpr ⟨mid, s₁, rest, second, rfl, hnext, hsecond⟩⟩

/-- The operations that a run performs are operations of the program. -/
theorem AllOps.of_traced {P : Op → Prop} {p : Program Op Ans α} (hp : p.AllOps P) {s s' : σ}
    {value : α} {ops : List ((op : Op) × Ans op)} (h : Traced exec s p ops value s') :
    ∀ x ∈ ops, P x.1 := by
  induction h with
  | done s value => simp
  | call hexec hnext ih =>
      intro x hx
      rcases List.mem_cons.mp hx with rfl | hx
      · exact hp.1
      · exact ih (hp.2 _) x hx

/-- What each operation of a kind keeps, a run of such operations keeps. -/
theorem Traced.invariant {I : σ → Prop} {P : Op → Prop}
    (hstep : ∀ {s op answer s'}, P op → exec s op answer s' → I s → I s')
    {p : Program Op Ans α} {s s' : σ} {value : α} {ops : List ((op : Op) × Ans op)}
    (h : Traced exec s p ops value s') (hops : ∀ x ∈ ops, P x.1) (hs : I s) : I s' := by
  induction h with
  | done s value => exact hs
  | call hexec hnext ih =>
      refine ih (fun x hx => hops x (List.mem_cons_of_mem _ hx)) ?_
      exact hstep (hops _ List.mem_cons_self) hexec hs

end Parts

/-! ## What a program can end with -/

/-- Whatever the answers, the value that the program ends with satisfies `post`. -/
def Ends (post : α → Prop) : Program Op Ans α → Prop
  | .done value => post value
  | .call _ next => ∀ answer, (next answer).Ends post

@[simp] theorem ends_done (post : α → Prop) (value : α) :
    (.done value : Program Op Ans α).Ends post ↔ post value := Iff.rfl

@[simp] theorem ends_call (post : α → Prop) (op : Op) (next : Ans op → Program Op Ans α) :
    (.call op next : Program Op Ans α).Ends post ↔ ∀ answer, (next answer).Ends post := Iff.rfl

theorem Ends.bind {post : β → Prop} {p : Program Op Ans α} {f : α → Program Op Ans β}
    (hp : p.Ends fun value => (f value).Ends post) : (p >>= f).Ends post := by
  induction p with
  | done value => exact hp
  | call op next ih => exact fun answer => ih answer (hp answer)

theorem ends_true (p : Program Op Ans α) : p.Ends fun _ => True := by
  induction p with
  | done value => trivial
  | call op next ih => exact ih

theorem Ends.mono {post post' : α → Prop} {p : Program Op Ans α} (hp : p.Ends post)
    (h : ∀ value, post value → post' value) : p.Ends post' := by
  induction p with
  | done value => exact h value hp
  | call op next ih => exact fun answer => ih answer (hp answer)

theorem Ends.of_traced {exec : σ → (op : Op) → Ans op → σ → Prop} {post : α → Prop}
    {p : Program Op Ans α} (hp : p.Ends post) {s s' : σ} {value : α}
    {ops : List ((op : Op) × Ans op)} (h : Traced exec s p ops value s') : post value := by
  induction h with
  | done s value => exact hp
  | call hexec hnext ih => exact ih (hp _)

/-! ## Programs over a larger signature -/

section Embed

variable {Op' : Type} {Ans' : Op' → Type}

/-- A program whose operations are operations of a larger signature. -/
def embed (inject : Op → Op') (back : ∀ op, Ans' (inject op) → Ans op) :
    Program Op Ans α → Program Op' Ans' α
  | .done value => .done value
  | .call op next => .call (inject op) fun answer => (next (back op answer)).embed inject back

variable {inject : Op → Op'} {back : ∀ op, Ans' (inject op) → Ans op}

theorem AllOps.embed {P : Op → Prop} {P' : Op' → Prop} (h : ∀ op, P op → P' (inject op))
    {p : Program Op Ans α} (hp : p.AllOps P) :
    (p.embed inject back : Program Op' Ans' α).AllOps P' := by
  induction p with
  | done value => trivial
  | call op next ih => exact ⟨h op hp.1, fun answer => ih _ (hp.2 _)⟩

theorem Ends.embed {post : α → Prop} {p : Program Op Ans α} (hp : p.Ends post) :
    (p.embed inject back : Program Op' Ans' α).Ends post := by
  induction p with
  | done value => exact hp
  | call op next ih => exact fun answer => ih _ (hp _)

end Embed

/-! ## Wrappers -/

/-- A wrapper with states `S`: the operation that stands for an operation of the program, how
its answer is passed back, and the state after it. -/
structure Wrapper (Op : Type) (Ans : Op → Type) (S : Type) where
  op : S → Op → Op
  back : ∀ s o, Ans (op s o) → Ans o
  next : S → Op → S

/-- The program behind the wrapper; it also yields the last state of the wrapper. -/
def wrap {S : Type} (W : Wrapper Op Ans S) : S → Program Op Ans α → Program Op Ans (S × α)
  | s, .done value => .done (s, value)
  | s, .call op next =>
      .call (W.op s op) fun answer => (next (W.back s op answer)).wrap W (W.next s op)

/-- A wrapper that keeps to a kind of operations. -/
theorem AllOps.wrap {S : Type} {W : Wrapper Op Ans S} {P P' : Op → Prop}
    (hop : ∀ s op, P op → P' (W.op s op)) {p : Program Op Ans α} (hp : p.AllOps P) (s : S) :
    (p.wrap W s).AllOps P' := by
  induction p generalizing s with
  | done value => trivial
  | call op next ih => exact ⟨hop s op hp.1, fun answer => ih _ (hp.2 _) _⟩

/-- A run behind a wrapper is a run without it, in an environment related to the one of the
wrapped run, and each operation of it stands for one of the program's own. -/
theorem Traced.of_wrap {exec : σ → (op : Op) → Ans op → σ → Prop} {S : Type}
    {W : Wrapper Op Ans S} {R : S → σ → σ → Prop}
    (hstep : ∀ {s w v op answer v'}, R s w v → exec v (W.op s op) answer v' →
      ∃ w', exec w op (W.back s op answer) w' ∧ R (W.next s op) w' v')
    {p : Program Op Ans α} {s s' : S} {w v v' : σ} {ops : List ((op : Op) × Ans op)} {value : α}
    (hR : R s w v) (h : Traced exec v (p.wrap W s) ops (s', value) v') :
    ∃ inner w', Traced exec w p inner value w' ∧ R s' w' v' ∧
      ∀ x ∈ ops, ∃ s op answer, x = ⟨W.op s op, answer⟩ ∧ ⟨op, W.back s op answer⟩ ∈ inner := by
  induction p generalizing s w v ops with
  | done value' =>
      obtain ⟨rfl, hvalue, rfl⟩ := traced_done_iff.mp h
      obtain ⟨rfl, rfl⟩ := Prod.mk.inj hvalue
      exact ⟨[], w, .done w _, hR, by simp⟩
  | call op next ih =>
      obtain ⟨answer, v₁, rest, rfl, hexec, hnext⟩ := traced_call_iff.mp h
      obtain ⟨w₁, hexec', hR'⟩ := hstep hR hexec
      obtain ⟨inner, w', hinner, hend, hops⟩ := ih _ hR' hnext
      refine ⟨⟨op, _⟩ :: inner, w', .call hexec' hinner, hend, ?_⟩
      intro x hx
      rcases List.mem_cons.mp hx with rfl | hx
      · exact ⟨s, op, answer, rfl, List.mem_cons_self⟩
      · obtain ⟨s₁, op₁, answer₁, heq, hmem⟩ := hops x hx
        exact ⟨s₁, op₁, answer₁, heq, List.mem_cons_of_mem _ hmem⟩

/-- The way back: a run of a program is one behind the wrapper, if the environment of the wrapper
can give the answers. -/
theorem Traced.wrap {exec : σ → (op : Op) → Ans op → σ → Prop} {S : Type}
    {W : Wrapper Op Ans S} {R : S → σ → σ → Prop}
    (hstep : ∀ {s w v op answer w'}, R s w v → exec w op answer w' →
      ∃ answer' v', exec v (W.op s op) answer' v' ∧ W.back s op answer' = answer ∧
        R (W.next s op) w' v')
    {p : Program Op Ans α} {s : S} {w v w' : σ} {ops : List ((op : Op) × Ans op)} {value : α}
    (hR : R s w v) (h : Traced exec w p ops value w') :
    ∃ outer s' v', Traced exec v (p.wrap W s) outer (s', value) v' ∧ R s' w' v' := by
  induction h generalizing s v with
  | done w value => exact ⟨[], s, v, .done v _, hR⟩
  | call hexec hnext ih =>
      obtain ⟨answer', v₁, hexec', hback, hR'⟩ := hstep hR hexec
      subst hback
      obtain ⟨outer, s', v', houter, hend⟩ := ih hR'
      exact ⟨_, s', v', .call hexec' houter, hend⟩

end Foundation.Program
