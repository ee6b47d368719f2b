import StyleLang.Passage

/-!
# What a block leaves of a scope chain

Entering a scope hides nothing, in either mode: an empty scope is looked through, a copied one answers
like the scope it was copied from. A pass binds in the innermost scope only, so leaving a scope gives
back the chain that was there before, with all its bindings. Nothing here depends on what is bound.
-/

namespace StyleLang

section

variable {α ε ε' : Type}

@[simp] theorem mapError_ok (f : ε → ε') (a : α) : (Except.ok a).mapError f = .ok a := rfl

@[simp] theorem mapError_error (f : ε → ε') (e : ε) :
    (Except.error e : Except ε α).mapError f = .error (f e) := rfl

end

namespace Chain

variable {α : Type}

theorem resolve_enter (c : Chain α) (x : String) : c.enter.resolve x = c.resolve x := by
  obtain ⟨mode, scopes⟩ := c
  cases mode with
  | lexical =>
    simp only [resolve, visible, enter, fresh]
    rw [List.findSome?_cons]
    rfl
  | snapshot => cases scopes <;> simp [resolve, visible, enter, fresh]

theorem bind_ok {c : Chain α} (h : c.scopes ≠ []) (x : String) (v : α) :
    ∃ d, c.bind x v = .ok d := by
  cases hs : c.scopes with
  | nil => exact absurd hs h
  | cons top rest => simp [bind, hs]

theorem resolve_bind {c d : Chain α} {x : String} {v : α} (h : c.bind x v = .ok d) (y : String) :
    d.resolve y = if y = x then some v else c.resolve y := by
  obtain ⟨mode, scopes⟩ := c
  cases scopes with
  | nil => simp [bind] at h
  | cons top rest =>
    simp only [bind, Except.ok.injEq] at h
    subst h
    by_cases hy : y = x
    · subst hy
      cases mode <;> simp [resolve, visible]
    · have hb : (y == x) = false := by simpa using hy
      have ht : ((x, v) :: top).lookup y = top.lookup y := by rw [List.lookup_cons, hb]
      cases mode with
      | lexical =>
        simp only [resolve, visible, hy, ↓reduceIte]
        rw [List.findSome?_cons, List.findSome?_cons, ht]
      | snapshot => simp [resolve, visible, ht, hy]

theorem resolve_empty (mode : ScopeMode) (x : String) :
    (Chain.empty mode : Chain α).resolve x = none := by
  cases mode <;> rfl

/-- The two chains differ in the innermost scope at most. -/
structure SameBelow (c d : Chain α) : Prop where
  mode_eq : d.mode = c.mode
  depth_eq : d.scopes.length = c.scopes.length
  below : d.scopes.tail = c.scopes.tail

theorem SameBelow.refl (c : Chain α) : c.SameBelow c := ⟨rfl, rfl, rfl⟩

theorem SameBelow.trans {c d e : Chain α} (h : c.SameBelow d) (h' : d.SameBelow e) :
    c.SameBelow e :=
  ⟨h'.mode_eq.trans h.mode_eq, h'.depth_eq.trans h.depth_eq, h'.below.trans h.below⟩

theorem SameBelow.ne_nil {c d : Chain α} (h : c.SameBelow d) (hc : c.scopes ≠ []) :
    d.scopes ≠ [] := by
  have := h.depth_eq
  intro hd
  rw [hd] at this
  exact hc (List.length_eq_zero_iff.mp this.symm)

theorem enter_ne_nil (c : Chain α) : c.enter.scopes ≠ [] := by simp [enter]

theorem sameBelow_bind {c d : Chain α} {x : String} {v : α} (h : c.bind x v = .ok d) :
    c.SameBelow d := by
  obtain ⟨mode, scopes⟩ := c
  cases scopes with
  | nil => simp [bind] at h
  | cons top rest =>
    simp only [bind, Except.ok.injEq] at h
    subst h
    exact ⟨rfl, rfl, rfl⟩

theorem leave_of_sameBelow {c d : Chain α} (h : c.enter.SameBelow d) : d.leave = .ok c := by
  obtain ⟨hm, hl, hb⟩ := h
  obtain ⟨mode, scopes⟩ := d
  cases scopes with
  | nil => simp [enter] at hl
  | cons top rest =>
    obtain ⟨mode', scopes'⟩ := c
    simp only [enter, List.tail_cons] at hm hb
    subst hm hb
    rfl

end Chain

namespace Passage

variable {α τ σ υ β γ : Type}

/-- A block that keeps to its own scope leaves the chain as it was. -/
theorem inScope_eq {c : Chain α} {block : Chain α → Passage α τ β}
    (h : c.enter.SameBelow (block c.enter).chain) :
    inScope c block = { block c.enter with
      chain := c, calls := .enter :: ((block c.enter).calls ++ [.leave]) } := by
  simp only [inScope, Chain.within, Chain.leave_of_sameBelow h]

theorem chain_bind {c d : Chain α} {tree : τ} {x : String} {v : α} (h : c.bind x v = .ok d) :
    Passage.bind tree c x v = ⟨tree, d, [.bind x v], .ok ()⟩ := by
  simp only [Passage.bind, h]

theorem sameBelow_bind (tree : τ) (c : Chain α) (x : String) (v : α) :
    c.SameBelow (Passage.bind tree c x v).chain := by
  unfold Passage.bind
  split
  · rename_i d h
    exact Chain.sameBelow_bind h
  · exact .refl c

theorem andThen_of_ok {join : τ → σ → υ} {rest : σ} {first : Passage α τ β} {b : β}
    (h : first.result = .ok b) (second : Chain α → β → Passage α σ γ) :
    andThen join rest first second =
      ⟨join first.tree (second first.chain b).tree, (second first.chain b).chain,
        first.calls ++ (second first.chain b).calls, (second first.chain b).result⟩ := by
  simp only [andThen, h]

theorem andThen_of_error {join : τ → σ → υ} {rest : σ} {first : Passage α τ β} {f : Fault}
    (h : first.result = .error f) (second : Chain α → β → Passage α σ γ) :
    andThen join rest first second =
      ⟨join first.tree rest, first.chain, first.calls, .error f⟩ := by
  simp only [andThen, h]

/-- A sequence ends normally exactly if both of its parts do. -/
theorem andThen_result_ok {join : τ → σ → υ} {rest : σ} {first : Passage α τ β}
    {second : Chain α → β → Passage α σ γ} {r : γ} :
    (andThen join rest first second).result = .ok r ↔
      ∃ b, first.result = .ok b ∧ (second first.chain b).result = .ok r := by
  cases h : first.result with
  | error f => simp [andThen, h]
  | ok b => simp [andThen, h]

theorem andThen_unit_ok {join : τ → σ → υ} {rest : σ} {first : Passage α τ Unit}
    {second : Chain α → Unit → Passage α σ γ} {r : γ} :
    (andThen join rest first second).result = .ok r ↔
      first.result = .ok () ∧ (second first.chain ()).result = .ok r := by
  rw [andThen_result_ok]
  constructor
  · intro h
    obtain ⟨⟨⟩, h⟩ := h
    exact h
  · intro h
    exact ⟨(), h⟩

theorem sameBelow_andThen {c : Chain α} {join : τ → σ → υ} {rest : σ} {first : Passage α τ β}
    {second : Chain α → β → Passage α σ γ} (h : c.SameBelow first.chain)
    (h' : ∀ (d : Chain α) b, d.SameBelow (second d b).chain) :
    c.SameBelow (andThen join rest first second).chain := by
  cases hr : first.result with
  | error f => rw [andThen_of_error hr]; exact h
  | ok b => rw [andThen_of_ok hr]; exact h.trans (h' _ _)

theorem sameBelow_inScope {c : Chain α} {block : Chain α → Passage α τ β}
    (h : c.enter.SameBelow (block c.enter).chain) : c.SameBelow (inScope c block).chain := by
  rw [inScope_eq h]
  exact .refl c

theorem mapResult_ok {p : Passage α τ β} {f : β → γ} {r : γ} :
    (p.mapResult f).result = .ok r ↔ ∃ b, p.result = .ok b ∧ f b = r := by
  cases h : p.result <;> simp [mapResult, h, Except.map]

/-- Runs a step on each node in turn, each on the chain that the one before it left. -/
def each (step : Chain α → τ → Passage α τ Unit) (c : Chain α) : List τ → Passage α (List τ) Unit
  | [] => .done [] c ()
  | n :: ns => .andThen List.cons ns (step c n) fun c' _ => each step c' ns

variable {step : Chain α → τ → Passage α τ Unit}

theorem each_sameBelow (h : ∀ c n, Chain.SameBelow c (step c n).chain) (c : Chain α) (ns : List τ) :
    c.SameBelow (each step c ns).chain := by
  induction ns generalizing c with
  | nil => exact .refl c
  | cons n ns ih => exact sameBelow_andThen (h c n) fun d _ => ih d

theorem each_length (c : Chain α) (ns : List τ) : (each step c ns).tree.length = ns.length := by
  induction ns generalizing c with
  | nil => rfl
  | cons n ns ih =>
    cases hr : (step c n).result with
    | error f => simp [each, andThen_of_error hr]
    | ok b => simp [each, andThen_of_ok hr, ih]

/-- The nodes of two lists in turn: those of the second on the chain that those of the first leave. -/
theorem each_append_ok {c : Chain α} {ns ms : List τ} :
    (each step c (ns ++ ms)).result = .ok () ↔
      (each step c ns).result = .ok () ∧ (each step (each step c ns).chain ms).result = .ok () := by
  induction ns generalizing c with
  | nil => exact ⟨fun h => ⟨rfl, h⟩, fun h => h.2⟩
  | cons n ns ih =>
    rw [List.cons_append, each, each, andThen_unit_ok, andThen_unit_ok, ih, and_assoc]
    constructor
    · rintro ⟨hn, hns, hms⟩
      exact ⟨hn, hns, by rwa [andThen_of_ok hn]⟩
    · rintro ⟨hn, hns, hms⟩
      exact ⟨hn, hns, by rwa [andThen_of_ok hn] at hms⟩

theorem each_append {c : Chain α} {ns : List τ} (h : (each step c ns).result = .ok ()) (ms : List τ) :
    (each step c (ns ++ ms)).chain = (each step (each step c ns).chain ms).chain ∧
      (each step c (ns ++ ms)).tree =
        (each step c ns).tree ++ (each step (each step c ns).chain ms).tree := by
  induction ns generalizing c with
  | nil => exact ⟨rfl, rfl⟩
  | cons n ns ih =>
    rw [each, andThen_unit_ok] at h
    obtain ⟨hn, hns⟩ := h
    obtain ⟨hc, ht⟩ := ih hns
    simp only [List.cons_append, each, andThen_of_ok hn]
    exact ⟨hc, by rw [ht]⟩

theorem each_singleton {c : Chain α} {n : τ} (h : (step c n).result = .ok ()) :
    (each step c [n]).result = .ok () ∧ (each step c [n]).chain = (step c n).chain ∧
      (each step c [n]).tree = [(step c n).tree] := by
  simp only [each, andThen_of_ok h]
  exact ⟨rfl, rfl, rfl⟩

/-- Nodes in between that leave the chain as it was make no difference to those after them. -/
theorem each_between {c : Chain α} {before between : List τ}
    (hbefore : (each step c before).result = .ok ())
    (hbetween : (each step (each step c before).chain between).result = .ok ())
    (hquiet : (each step (each step c before).chain between).chain = (each step c before).chain)
    (after : List τ) :
    ((each step c (before ++ between ++ after)).result = .ok () ↔
        (each step (each step c before).chain after).result = .ok ()) ∧
      (each step c (before ++ between ++ after)).tree = (each step c before).tree ++
        (each step (each step c before).chain between).tree ++
          (each step (each step c before).chain after).tree := by
  have hfirst : (each step c (before ++ between)).result = .ok () :=
    each_append_ok.mpr ⟨hbefore, hbetween⟩
  obtain ⟨hchain, htree⟩ := each_append hbefore between
  rw [hquiet] at hchain
  obtain ⟨-, hall⟩ := each_append hfirst after
  rw [each_append_ok, hall, hchain, htree]
  exact ⟨and_iff_right hfirst, rfl⟩

/-- If all steps end normally, the step on node `k` runs on the chain that the steps on the nodes
before it leave, and what it makes of its node is what stands in that place afterwards. -/
theorem each_at {c : Chain α} {ns : List τ} (h : (each step c ns).result = .ok ()) {k : Nat} {n : τ}
    (hn : ns[k]? = some n) :
    (step (each step c (ns.take k)).chain n).result = .ok () ∧
      (each step c (ns.take (k + 1))).chain = (step (each step c (ns.take k)).chain n).chain ∧
      (each step c ns).tree[k]? = some (step (each step c (ns.take k)).chain n).tree := by
  induction ns generalizing c k with
  | nil => simp at hn
  | cons m ms ih =>
    rw [each, andThen_unit_ok] at h
    obtain ⟨hm, hms⟩ := h
    cases k with
    | zero =>
      obtain rfl := Option.some.inj hn
      refine ⟨hm, ?_, ?_⟩
      · simp [each, andThen_of_ok hm, done]
      · simp [each, andThen_of_ok hm, done]
    | succ k =>
      obtain ⟨hr, hc, ht⟩ := ih hms hn
      simp only [List.take_succ_cons, each, andThen_of_ok hm, List.getElem?_cons_succ]
      exact ⟨hr, hc, ht⟩

/-- Runs a step on each node in turn, like `each`, and gathers what the nodes come to. -/
def gather (step : Chain α → τ → Passage α τ (List β)) (c : Chain α) :
    List τ → Passage α (List τ) (List β)
  | [] => .done [] c []
  | n :: ns => .andThen List.cons ns (step c n) fun c' here => (gather step c' ns).mapResult (here ++ ·)

variable {collect : Chain α → τ → Passage α τ (List β)}

theorem gather_sameBelow (h : ∀ c n, Chain.SameBelow c (collect c n).chain) (c : Chain α)
    (ns : List τ) : c.SameBelow (gather collect c ns).chain := by
  induction ns generalizing c with
  | nil => exact .refl c
  | cons n ns ih => exact sameBelow_andThen (h c n) fun d _ => ih d

/-- The nodes of two lists in turn: what they come to is gathered in that order. -/
theorem gather_append_ok {c : Chain α} {ns ms : List τ} {out : List β} :
    (gather collect c (ns ++ ms)).result = .ok out ↔
      ∃ first second, (gather collect c ns).result = .ok first ∧
        (gather collect (gather collect c ns).chain ms).result = .ok second ∧
        out = first ++ second := by
  induction ns generalizing c out with
  | nil =>
    constructor
    · intro h
      exact ⟨[], out, rfl, h, rfl⟩
    · rintro ⟨first, second, hfirst, hsecond, rfl⟩
      cases hfirst
      exact hsecond
  | cons n ns ih =>
    rw [List.cons_append, gather, andThen_result_ok]
    constructor
    · rintro ⟨here, hn, hrest⟩
      obtain ⟨others, hothers, rfl⟩ := mapResult_ok.mp hrest
      obtain ⟨first, second, hfirst, hsecond, rfl⟩ := ih.mp hothers
      rw [gather, andThen_of_ok hn]
      exact ⟨here ++ first, second, mapResult_ok.mpr ⟨first, hfirst, rfl⟩, hsecond,
        (List.append_assoc here first second).symm⟩
    · rintro ⟨first, second, hfirst, hsecond, rfl⟩
      rw [gather] at hfirst
      obtain ⟨here, hn, hrest⟩ := andThen_result_ok.mp hfirst
      obtain ⟨others, hothers, rfl⟩ := mapResult_ok.mp hrest
      rw [gather, andThen_of_ok hn] at hsecond
      exact ⟨here, hn, mapResult_ok.mpr
        ⟨others ++ second, ih.mpr ⟨others, second, hothers, hsecond, rfl⟩,
          (List.append_assoc here others second).symm⟩⟩

theorem gather_singleton_ok {c : Chain α} {n : τ} {out : List β} :
    (gather collect c [n]).result = .ok out ↔ (collect c n).result = .ok out := by
  rw [gather, andThen_result_ok]
  constructor
  · rintro ⟨here, hn, hrest⟩
    obtain ⟨others, hothers, rfl⟩ := mapResult_ok.mp hrest
    cases hothers
    rwa [List.append_nil]
  · intro h
    exact ⟨out, h, mapResult_ok.mpr ⟨[], rfl, List.append_nil out⟩⟩

/-- Nodes that leave every chain as it was leave it so together, also if one of them is a fault. -/
theorem gather_quiet {ns : List τ} (h : ∀ n ∈ ns, ∀ c, (collect c n).chain = c) (c : Chain α) :
    (gather collect c ns).chain = c := by
  induction ns with
  | nil => rfl
  | cons n ns ih =>
    obtain ⟨hn, hns⟩ := List.forall_mem_cons.mp h
    cases hr : (collect c n).result with
    | error f => rw [gather, andThen_of_error hr, hn]
    | ok here =>
      rw [gather, andThen_of_ok hr, hn]
      exact ih hns

/-- What nodes come to that stand around others which leave the chain as it was. -/
theorem gather_between_ok {c : Chain α} {before between : List τ}
    (hquiet : (gather collect (gather collect c before).chain between).chain =
      (gather collect c before).chain) {after : List τ} {out : List β} :
    (gather collect c (before ++ between ++ after)).result = .ok out ↔
      ∃ first here last, (gather collect c before).result = .ok first ∧
        (gather collect (gather collect c before).chain between).result = .ok here ∧
        (gather collect (gather collect c before).chain after).result = .ok last ∧
        out = first ++ here ++ last := by
  rw [List.append_assoc, gather_append_ok]
  constructor
  · rintro ⟨first, others, hfirst, hothers, rfl⟩
    obtain ⟨here, last, hhere, hlast, rfl⟩ := gather_append_ok.mp hothers
    rw [hquiet] at hlast
    exact ⟨first, here, last, hfirst, hhere, hlast, (List.append_assoc first here last).symm⟩
  · rintro ⟨first, here, last, hfirst, hhere, hlast, rfl⟩
    rw [← hquiet] at hlast
    exact ⟨first, here ++ last, hfirst, gather_append_ok.mpr ⟨here, last, hhere, hlast, rfl⟩,
      List.append_assoc first here last⟩

/-- If every step keeps an invariant, it holds of the chain that is left at the end. -/
theorem gather_keeps (inv : Nat → Chain α → Prop) {c : Chain α} {ns : List τ} {out : List β}
    (keep : ∀ k n c here, ns[k]? = some n → inv k c → (collect c n).result = .ok here →
      inv (k + 1) (collect c n).chain)
    (start : inv 0 c) (h : (gather collect c ns).result = .ok out) :
    inv ns.length (gather collect c ns).chain := by
  induction ns generalizing c out inv with
  | nil => exact start
  | cons n ns ih =>
    rw [gather] at h
    obtain ⟨here, hn, hrest⟩ := andThen_result_ok.mp h
    obtain ⟨others, hothers, -⟩ := mapResult_ok.mp hrest
    rw [gather, andThen_of_ok hn]
    exact ih (fun k => inv (k + 1)) (fun k m c out hm => keep (k + 1) m c out hm)
      (keep 0 n c here rfl start hn) hothers

/-- One more node: its step runs on the chain that is left, and its share comes last. -/
theorem gather_snoc {c : Chain α} {ns : List τ} {n : τ} {out here : List β}
    (h : (gather collect c ns).result = .ok out)
    (hn : (collect (gather collect c ns).chain n).result = .ok here) :
    (gather collect c (ns ++ [n])).result = .ok (out ++ here) ∧
      (gather collect c (ns ++ [n])).chain = (collect (gather collect c ns).chain n).chain := by
  induction ns generalizing c out with
  | nil =>
    obtain rfl : [] = out := Except.ok.inj h
    have hn : (collect c n).result = .ok here := hn
    simp [gather, andThen_of_ok hn, mapResult, done, Except.map]
  | cons m ms ih =>
    rw [gather, andThen_result_ok] at h
    obtain ⟨first, hm, hms⟩ := h
    rw [gather, andThen_of_ok hm] at hn
    simp only [mapResult] at hms hn
    cases hr : (gather collect (collect c m).chain ms).result with
    | error f => simp [hr, Except.map] at hms
    | ok others =>
      obtain rfl : first ++ others = out := by
        rw [hr] at hms
        exact Except.ok.inj hms
      obtain ⟨hres, hch⟩ := ih hr hn
      rw [List.cons_append, gather, gather, andThen_of_ok hm, andThen_of_ok hm]
      simp only [mapResult]
      rw [hres, hch]
      simp [Except.map]

theorem gather_length (c : Chain α) (ns : List τ) : (gather collect c ns).tree.length = ns.length := by
  induction ns generalizing c with
  | nil => rfl
  | cons n ns ih =>
    cases hr : (collect c n).result with
    | error f => simp [gather, andThen_of_error hr]
    | ok here => simp [gather, andThen_of_ok hr, mapResult, ih]

theorem gather_append {c : Chain α} {ns : List τ} {first : List β}
    (h : (gather collect c ns).result = .ok first) (ms : List τ) :
    gather collect c (ns ++ ms) =
      ⟨(gather collect c ns).tree ++ (gather collect (gather collect c ns).chain ms).tree,
        (gather collect (gather collect c ns).chain ms).chain,
        (gather collect c ns).calls ++ (gather collect (gather collect c ns).chain ms).calls,
        (gather collect (gather collect c ns).chain ms).result.map (first ++ ·)⟩ := by
  induction ns generalizing c first with
  | nil =>
    obtain rfl : [] = first := Except.ok.inj h
    have hsame : ∀ r : Passage α (List τ) (List β),
        r = ⟨[] ++ r.tree, r.chain, [] ++ r.calls, r.result.map ([] ++ ·)⟩ := by
      rintro ⟨tree, chain, calls, result⟩
      cases result <;> rfl
    exact hsame _
  | cons n ns ih =>
    rw [gather] at h
    obtain ⟨here, hn, hrest⟩ := andThen_result_ok.mp h
    obtain ⟨others, hothers, rfl⟩ := mapResult_ok.mp hrest
    simp only [List.cons_append, gather, andThen_of_ok hn, ih hothers, mapResult, List.append_assoc]
    cases (gather collect (gather collect (collect c n).chain ns).chain ms).result <;> rfl

/-- A run that stops does so at a node that it came to with the nodes before it done, and leaves those
after it as they are. -/
theorem gather_stopped {c : Chain α} {ns : List τ} {f : Fault}
    (h : (gather collect c ns).result = .error f) :
    ∃ before n after first, ns = before ++ n :: after ∧ (gather collect c before).result = .ok first ∧
      (collect (gather collect c before).chain n).result = .error f ∧
      (gather collect c ns).tree = (gather collect c before).tree ++
        (collect (gather collect c before).chain n).tree :: after := by
  induction ns generalizing c with
  | nil => cases h
  | cons n ns ih =>
    cases hn : (collect c n).result with
    | error f' =>
      rw [gather, andThen_of_error hn] at h ⊢
      cases h
      exact ⟨[], n, ns, [], rfl, rfl, hn, rfl⟩
    | ok here =>
      rw [gather, andThen_of_ok hn] at h ⊢
      simp only [mapResult] at h
      cases hr : (gather collect (collect c n).chain ns).result with
      | ok others => simp [hr, Except.map] at h
      | error f' =>
        simp only [hr, Except.map, Except.error.injEq] at h
        subst h
        obtain ⟨before, m, after, first, rfl, hfirst, hm, htree⟩ := ih hr
        refine ⟨n :: before, m, after, here ++ first, rfl, ?_, ?_, ?_⟩
        · simp [gather, andThen_of_ok hn, mapResult, hfirst, Except.map]
        · simpa only [gather, andThen_of_ok hn, mapResult] using hm
        · simp only [gather, andThen_of_ok hn, mapResult, List.cons_append, htree]

/-- What comes after a node at which a run stops is not come to. -/
theorem gather_append_of_error {c : Chain α} {before : List τ} {first : List β} {n : τ} {f : Fault}
    (h : (gather collect c before).result = .ok first)
    (hn : (collect (gather collect c before).chain n).result = .error f) (after : List τ) :
    (gather collect c (before ++ n :: after)).result = .error f := by
  rw [gather_append h, gather, andThen_of_error hn]
  rfl

/-- If every step ends normally and keeps an invariant, a whole run does. -/
theorem gather_run (inv : Nat → Chain α → List β → Prop) {c : Chain α} {ns : List τ}
    (start : inv 0 c [])
    (keep : ∀ k n out, ns[k]? = some n → inv k (gather collect c (ns.take k)).chain out →
      ∃ here, (collect (gather collect c (ns.take k)).chain n).result = .ok here ∧
        inv (k + 1) (collect (gather collect c (ns.take k)).chain n).chain (out ++ here))
    {k : Nat} (hk : k ≤ ns.length) :
    ∃ out, (gather collect c (ns.take k)).result = .ok out ∧
      inv k (gather collect c (ns.take k)).chain out := by
  induction k with
  | zero => exact ⟨[], rfl, start⟩
  | succ k ih =>
    obtain ⟨out, hr, hinv⟩ := ih (by omega)
    have hget : ns[k]? = some ns[k] := List.getElem?_eq_getElem hk
    obtain ⟨here, hn, hinv'⟩ := keep k ns[k] out hget hinv
    obtain ⟨hres, hch⟩ := gather_snoc hr hn
    rw [List.take_succ_eq_append_getElem hk]
    exact ⟨out ++ here, hres, by rw [hch]; exact hinv'⟩

end Passage

end StyleLang
