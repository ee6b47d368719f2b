import StyleLang.Proofs.Scope.Chain

/-!
# Passages that go alike

Two passages go alike if they make the same calls, leave the same chain and end in the same way. How
their trees compare is left open: it is a relation between the tree of the one and that of the other.
-/

namespace StyleLang.Passage

variable {α τ τ' σ σ' υ υ' β γ : Type}

/-- The passages go the same way, and `R` relates the trees that they leave. -/
structure Alike (R : τ → τ' → Prop) (r : Passage α τ β) (r' : Passage α τ' β) : Prop where
  tree : R r.tree r'.tree
  chain : r'.chain = r.chain
  calls : r'.calls = r.calls
  result : r'.result = r.result

namespace Alike

variable {R : τ → τ' → Prop} {r : Passage α τ β} {r' : Passage α τ' β}

theorem refl (r : Passage α τ β) : Alike (fun t t' => t' = t) r r := ⟨rfl, rfl, rfl, rfl⟩

theorem mono {Q : τ → τ' → Prop} (h : Alike R r r') (hRQ : ∀ t t', R t t' → Q t t') : Alike Q r r' :=
  { h with tree := hRQ _ _ h.tree }

theorem mapTree {Q : σ → σ' → Prop} (h : Alike R r r') {f : τ → σ} {f' : τ' → σ'}
    (hf : ∀ t t', R t t' → Q (f t) (f' t')) : Alike Q (r.mapTree f) (r'.mapTree f') :=
  ⟨hf _ _ h.tree, h.chain, h.calls, h.result⟩

theorem mapResult (h : Alike R r r') (f : β → γ) : Alike R (r.mapResult f) (r'.mapResult f) :=
  ⟨h.tree, h.chain, h.calls, congrArg (Except.map f) h.result⟩

/-- Passages in sequence: the second ones are compared only where the first ones come to. -/
theorem andThen {S : σ → σ' → Prop} {Q : υ → υ' → Prop} {join : τ → σ → υ} {join' : τ' → σ' → υ'}
    {rest : σ} {rest' : σ'} {second : Chain α → β → Passage α σ γ}
    {second' : Chain α → β → Passage α σ' γ} (h : Alike R r r') (hrest : S rest rest')
    (hsecond : ∀ b, r.result = .ok b → Alike S (second r.chain b) (second' r.chain b))
    (hjoin : ∀ t t' u u', R t t' → S u u' → Q (join t u) (join' t' u')) :
    Alike Q (Passage.andThen join rest r second) (Passage.andThen join' rest' r' second') := by
  cases hr : r.result with
  | error f =>
    rw [andThen_of_error hr, andThen_of_error (h.result.trans hr)]
    exact ⟨hjoin _ _ _ _ h.tree hrest, h.chain, h.calls, rfl⟩
  | ok b =>
    obtain ⟨htree, hchain, hcalls, hresult⟩ := hsecond b hr
    rw [andThen_of_ok hr, andThen_of_ok (h.result.trans hr), h.chain, h.calls]
    exact ⟨hjoin _ _ _ _ h.tree htree, hchain, congrArg (r.calls ++ ·) hcalls, hresult⟩

theorem inScope {c : Chain α} {block : Chain α → Passage α τ β} {block' : Chain α → Passage α τ' β}
    (h : Alike R (block c.enter) (block' c.enter)) :
    Alike R (Passage.inScope c block) (Passage.inScope c block') := by
  obtain ⟨htree, hchain, hcalls, hresult⟩ := h
  simp only [Passage.inScope, Chain.within, hchain]
  cases (block c.enter).chain.leave with
  | ok left => exact ⟨htree, rfl, by simp only [hcalls], hresult⟩
  | error f => exact ⟨htree, rfl, by simp only [notLeft, hcalls], rfl⟩

/-- A step that is run on each node in turn goes alike with another node in the place of one, if it goes
alike on these two. -/
theorem gather_set {Q : τ → τ → Prop} {collect : Chain α → τ → Passage α τ (List β)} {ns : List τ}
    {c : Chain α} {i : Nat} {n n' : τ} (inv : Nat → Chain α → Prop)
    (keep : ∀ k m d here, ns[k]? = some m → inv k d → (collect d m).result = .ok here →
      inv (k + 1) (collect d m).chain)
    (start : inv 0 c) (hn : ns[i]? = some n) (hQ : Q n n')
    (h : ∀ d, inv i d → (collect d n).Alike Q (collect d n')) :
    (gather collect c ns).Alike (fun ts ts' => ∃ t t', ts[i]? = some t ∧ Q t t' ∧ ts' = ts.set i t')
      (gather collect c (ns.set i n')) := by
  induction ns generalizing c i inv with
  | nil => cases hn
  | cons m ns ih =>
    cases i with
    | zero =>
      obtain rfl := Option.some.inj hn
      refine (h c start).andThen (S := fun ts ts' => ts' = ts) rfl (fun here _ => ?_) ?_
      · exact (Alike.refl _).mapResult _
      · rintro t t' ts ts' ht rfl
        exact ⟨t, t', rfl, ht, rfl⟩
    | succ i =>
      refine (Alike.refl _).andThen
        (S := fun ts ts' => ∃ t t', ts[i]? = some t ∧ Q t t' ∧ ts' = ts.set i t')
        ⟨n, n', hn, hQ, rfl⟩ (fun here hok => ?_) ?_
      · exact (ih (fun k => inv (k + 1)) (fun k m' d out hm => keep (k + 1) m' d out hm)
          (keep 0 m c here rfl start hok) hn h).mapResult _
      · rintro t t' ts ts' rfl ⟨u, u', hu, hQ, rfl⟩
        exact ⟨u, u', hu, hQ, rfl⟩

end Alike

end StyleLang.Passage
