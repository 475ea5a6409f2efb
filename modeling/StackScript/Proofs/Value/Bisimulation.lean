import Mathlib.Data.List.Forall2
import Mathlib.Logic.Relation
import StackScript.Proofs.Value.Lists
import StackScript.Proofs.Value.Literal

/-!
# Structural equality is the greatest bisimulation

Lists are shared and can change, so a list may hold itself, directly or through others, and the values
over a heap are graphs. On graphs, structural equality is coinductive: a *bisimulation* relates only
equal literals, identical objects, identical lists, and lists of one length whose elements are related
again, and two values are structurally equal if some bisimulation relates them.

Comparing values computes just that (`Heap.alike_bisimilar`). It goes depth-first and takes the pairs of
lists that are being compared for equal, but forgets them when it leaves them. `Heap.Compares` is that
comparison without any bound on its depth.

* It ends (`Heap.compares_alikeFrom`): every pair of lists entered is new, and there are only so many
  pairs of lists in the heap.
* It is sound (`Heap.Compares.sound`): what a successful comparison has seen relates only what it should,
  but for the pairs that were assumed; this is a bisimulation when nothing was.
* It is complete (`Heap.Compares.complete`): a comparison that fails has found a difference, so that no
  bisimulation relates its values. What was assumed does not matter here, as assuming never makes a
  comparison fail.
-/

namespace StackScript.Heap

/-! ### Bisimulations -/

/-- Two values look alike as far as `R` tells for elements: they are equal literals, the same object, the
same list, or lists of one length with elements related by `R`. -/
inductive Likeness (h : Heap) (R : Value → Value → Prop) : Value → Value → Prop
  | literal {a b : Literal} (heq : a.Equal b) : Likeness h R (.literal a) (.literal b)
  | object (r : ObjectRef) : Likeness h R (.object r) (.object r)
  | same (r : ListRef) : Likeness h R (.list r) (.list r)
  | lists {r s : ListRef} (hitems : List.Forall₂ R (h.items r).toList (h.items s).toList) :
      Likeness h R (.list r) (.list s)

/-- A relation that relates only what looks alike as far as it tells itself. -/
def Bisimulation (h : Heap) (R : Value → Value → Prop) : Prop :=
  ∀ a b, R a b → h.Likeness R a b

section Likeness

variable {h : Heap} {R S T : Value → Value → Prop} {a b c : Value}

theorem Likeness.mono (hRS : ∀ a b, R a b → S a b) (hab : h.Likeness R a b) : h.Likeness S a b := by
  cases hab with
  | literal heq => exact .literal heq
  | object r => exact .object r
  | same r => exact .same r
  | lists hitems => exact .lists (hitems.imp hRS)

theorem Likeness.symm (hab : h.Likeness R a b) : h.Likeness (flip R) b a := by
  cases hab with
  | literal heq => exact .literal heq.symm
  | object r => exact .object r
  | same r => exact .same r
  | lists hitems => exact .lists (List.Forall₂.flip hitems)

theorem forall₂_comp {xs ys zs : List Value} (hxy : List.Forall₂ R xs ys) (hyz : List.Forall₂ S ys zs) :
    List.Forall₂ (Relation.Comp R S) xs zs := by
  induction hxy generalizing zs with
  | nil =>
    cases hyz
    exact .nil
  | cons hab _ ih =>
    cases hyz with
    | cons hbc hrest => exact .cons ⟨_, hab, hbc⟩ (ih hrest)

/-- Elements of lists that are the same are compared once, so likeness composes only within a relation
that holds both of the others besides their composition. -/
theorem Likeness.trans (hRT : ∀ a b, R a b → T a b) (hST : ∀ a b, S a b → T a b)
    (hRST : ∀ a c, Relation.Comp R S a c → T a c) (hab : h.Likeness R a b) (hbc : h.Likeness S b c) :
    h.Likeness T a c := by
  cases hab with
  | literal heq =>
    cases hbc with
    | literal heq' => exact .literal (heq.trans heq')
  | object r => exact hbc.mono hST
  | same r => exact hbc.mono hST
  | lists hitems =>
    cases hbc with
    | same r => exact .lists (hitems.imp hRT)
    | lists hitems' => exact .lists ((forall₂_comp hitems hitems').imp hRST)

theorem Bisimulation.flip (hR : h.Bisimulation R) : h.Bisimulation (flip R) :=
  fun a b hab ↦ (hR b a hab).symm

/-- Two bisimulations together with their composition are a bisimulation. -/
theorem Bisimulation.comp (hR : h.Bisimulation R) (hS : h.Bisimulation S) :
    h.Bisimulation fun a c ↦ R a c ∨ S a c ∨ Relation.Comp R S a c := by
  rintro a c (hac | hac | ⟨b, hab, hbc⟩)
  · exact (hR a c hac).mono fun _ _ ↦ .inl
  · exact (hS a c hac).mono fun _ _ h ↦ .inr (.inl h)
  · exact (hR a b hab).trans (fun _ _ ↦ .inl) (fun _ _ h ↦ .inr (.inl h)) (fun _ _ h ↦ .inr (.inr h))
      (hS b c hbc)

end Likeness

/-! ### Comparing without a bound -/

/-- Whether two values are both literals, both lists or both objects. -/
def sameKind : Value → Value → Bool
  | .literal _, .literal _ => true
  | .list _, .list _ => true
  | .object _, .object _ => true
  | _, _ => false

/-- The comparison of two values while the pairs `assumed` are being compared, and what comes out of it.
Elements are compared in order, up to the first two that differ. -/
inductive Compares (h : Heap) : List (ListRef × ListRef) → Value → Value → Bool → Prop
  | literal {assumed : List (ListRef × ListRef)} (a b : Literal) :
      Compares h assumed (.literal a) (.literal b) (a.alike b)
  | object {assumed : List (ListRef × ListRef)} (r s : ObjectRef) :
      Compares h assumed (.object r) (.object s) (r == s)
  | kinds {assumed : List (ListRef × ListRef)} {a b : Value} (hkinds : sameKind a b = false) :
      Compares h assumed a b false
  | same {assumed : List (ListRef × ListRef)} (r : ListRef) :
      Compares h assumed (.list r) (.list r) true
  | assumed {assumed : List (ListRef × ListRef)} {r s : ListRef} (hmem : (r, s) ∈ assumed) :
      Compares h assumed (.list r) (.list s) true
  | length {assumed : List (ListRef × ListRef)} {r s : ListRef} (hne : r ≠ s) (hnew : (r, s) ∉ assumed)
      (hlength : (h.items r).toList.length ≠ (h.items s).toList.length) :
      Compares h assumed (.list r) (.list s) false
  | equal {assumed : List (ListRef × ListRef)} {r s : ListRef} (hne : r ≠ s) (hnew : (r, s) ∉ assumed)
      (hlength : (h.items r).toList.length = (h.items s).toList.length)
      (hitems : ∀ p ∈ (h.items r).toList.zip (h.items s).toList,
        Compares h ((r, s) :: assumed) p.1 p.2 true) :
      Compares h assumed (.list r) (.list s) true
  | differ {assumed : List (ListRef × ListRef)} {r s : ListRef} (hne : r ≠ s) (hnew : (r, s) ∉ assumed)
      (hlength : (h.items r).toList.length = (h.items s).toList.length)
      {before after : List (Value × Value)} {x y : Value}
      (hzip : (h.items r).toList.zip (h.items s).toList = before ++ (x, y) :: after)
      (hbefore : ∀ p ∈ before, Compares h ((r, s) :: assumed) p.1 p.2 true)
      (hxy : Compares h ((r, s) :: assumed) x y false) :
      Compares h assumed (.list r) (.list s) false

section Termination

variable {h : Heap} {assumed : List (ListRef × ListRef)} {depth : Nat} {r s : ListRef}

/-- Pairs of lists that can be under comparison at a time, and the depth that is left then: no pair is
there twice, all are lists of the heap, and depth is left for all others, and one more. -/
structure Sufficient (h : Heap) (depth : Nat) (assumed : List (ListRef × ListRef)) : Prop where
  nodup : assumed.Nodup
  lists : ∀ p ∈ assumed, h.IsList p.1 ∧ h.IsList p.2
  deep : h.lists.size * h.lists.size + 1 ≤ depth + assumed.length

theorem Sufficient.start : h.Sufficient (h.lists.size * h.lists.size + 1) [] where
  nodup := .nil
  lists := by simp
  deep := by simp

/-- Some depth is always left. -/
theorem Sufficient.ne_zero (hs : h.Sufficient depth assumed) : depth ≠ 0 := by
  have hle := length_le_of_nodup_pairs hs.nodup hs.lists
  have := hs.deep
  omega

/-- Entering a new pair of lists takes from the depth what it adds to the pairs under comparison. -/
theorem Sufficient.enter (hs : h.Sufficient (depth + 1) assumed) (hnew : (r, s) ∉ assumed)
    (hr : h.IsList r) (hs' : h.IsList s) : h.Sufficient depth ((r, s) :: assumed) where
  nodup := List.nodup_cons.mpr ⟨hnew, hs.nodup⟩
  lists := by
    intro p hp
    obtain rfl | hp := List.mem_cons.mp hp
    · exact ⟨hr, hs'⟩
    · exact hs.lists p hp
  deep := by
    have := hs.deep
    simp only [List.length_cons]
    omega

/-- The elements that are compared with one another, when a new pair of lists is entered, have depth
enough: if there are any, both lists are lists of the heap. -/
theorem Sufficient.items (hs : h.Sufficient (depth + 1) assumed) (hnew : (r, s) ∉ assumed)
    {p : Value × Value} (hp : p ∈ (h.items r).toList.zip (h.items s).toList) :
    h.Sufficient depth ((r, s) :: assumed) := by
  obtain ⟨hx, hy⟩ := List.of_mem_zip hp
  exact hs.enter hnew (isList_of_mem (Array.mem_toList_iff.mp hx)) (isList_of_mem (Array.mem_toList_iff.mp hy))

theorem alikeFrom_kinds {a b : Value} (hkinds : sameKind a b = false) :
    h.alikeFrom depth assumed a b = false := by
  cases depth <;> cases a <;> cases b <;> first | rfl | nomatch hkinds

theorem alikeFrom_entered (hne : r ≠ s) (hnew : (r, s) ∉ assumed) :
    h.alikeFrom (depth + 1) assumed (.list r) (.list s) =
      ((h.items r).toList.length == (h.items s).toList.length &&
        ((h.items r).toList.zip (h.items s).toList).all fun p ↦
          h.alikeFrom depth ((r, s) :: assumed) p.1 p.2) := by
  simp [alikeFrom, hne, hnew]

/-- Either all pairs of elements pass a test, or there is a first one that does not. -/
theorem all_or_first (test : Value × Value → Bool) (pairs : List (Value × Value)) :
    (∀ p ∈ pairs, test p = true) ∨
      ∃ before x y after, pairs = before ++ (x, y) :: after ∧ (∀ p ∈ before, test p = true) ∧
        test (x, y) = false := by
  rcases hfind : pairs.find? (!test ·) with - | ⟨x, y⟩
  · exact .inl (by simpa using hfind)
  · obtain ⟨hxy, before, after, hpairs, hbefore⟩ := List.find?_eq_some_iff_append.mp hfind
    exact .inr ⟨before, x, y, after, hpairs, by simpa using hbefore, by simpa using hxy⟩

/-- With sufficient depth, every comparison ends and gives what is computed. -/
theorem compares_alikeFrom (hs : h.Sufficient depth assumed) (a b : Value) :
    h.Compares assumed a b (h.alikeFrom depth assumed a b) := by
  induction depth generalizing assumed a b with
  | zero => exact absurd rfl hs.ne_zero
  | succ depth ih =>
    by_cases hkinds : sameKind a b = false
    · rw [alikeFrom_kinds hkinds]
      exact .kinds hkinds
    rcases a with a | r | r <;> rcases b with b | s | s <;> simp only [sameKind, not_true] at hkinds
    · simpa [alikeFrom] using .literal a b
    · by_cases hne : r = s
      · subst hne
        simpa [alikeFrom] using .same r
      by_cases hnew : (r, s) ∈ assumed
      · simpa [alikeFrom, hnew] using .assumed hnew
      rw [alikeFrom_entered hne hnew]
      by_cases hlength : (h.items r).toList.length = (h.items s).toList.length
      · have hitem : ∀ p ∈ (h.items r).toList.zip (h.items s).toList,
            h.Compares ((r, s) :: assumed) p.1 p.2 (h.alikeFrom depth ((r, s) :: assumed) p.1 p.2) :=
          fun p hp ↦ ih (hs.items hnew hp) p.1 p.2
        rw [beq_iff_eq.mpr hlength, Bool.true_and]
        obtain hall | ⟨before, x, y, after, hzip, hbefore, hxy⟩ := all_or_first
          (fun p ↦ h.alikeFrom depth ((r, s) :: assumed) p.1 p.2)
          ((h.items r).toList.zip (h.items s).toList)
        · rw [List.all_eq_true.mpr hall]
          exact .equal hne hnew hlength fun p hp ↦ hall p hp ▸ hitem p hp
        · rw [hzip] at hitem ⊢
          rw [List.all_append, List.all_cons, hxy, Bool.false_and, Bool.and_false]
          refine .differ hne hnew hlength hzip (fun p hp ↦ ?_) (hxy ▸ hitem (x, y) (by simp))
          exact hbefore p hp ▸ hitem p (List.mem_append_left _ hp)
      · rw [beq_false_of_ne hlength, Bool.false_and]
        exact .length hne hnew hlength
    · simpa [alikeFrom] using .object r s

/-- A comparison gives nothing else than what is computed with sufficient depth. -/
theorem Compares.eq_alikeFrom {a b : Value} {result : Bool} (hc : h.Compares assumed a b result)
    (hs : h.Sufficient depth assumed) : result = h.alikeFrom depth assumed a b := by
  induction hc generalizing depth with
  | literal a b => cases depth <;> rfl
  | object r s => cases depth <;> rfl
  | kinds hkinds => exact (alikeFrom_kinds hkinds).symm
  | same r => cases depth <;> simp [alikeFrom]
  | assumed hmem => cases depth <;> simp [alikeFrom, hmem]
  | length hne hnew hlength =>
    obtain ⟨depth, rfl⟩ := Nat.exists_eq_succ_of_ne_zero hs.ne_zero
    rw [alikeFrom_entered hne hnew, beq_false_of_ne hlength, Bool.false_and]
  | equal hne hnew hlength _ ih =>
    obtain ⟨depth, rfl⟩ := Nat.exists_eq_succ_of_ne_zero hs.ne_zero
    rw [alikeFrom_entered hne hnew, beq_iff_eq.mpr hlength, Bool.true_and, eq_comm, List.all_eq_true]
    exact fun p hp ↦ (ih p hp (hs.items hnew hp)).symm
  | differ hne hnew hlength hzip _ _ _ ih =>
    obtain ⟨depth, rfl⟩ := Nat.exists_eq_succ_of_ne_zero hs.ne_zero
    have hxy := ih (hs.items hnew (hzip ▸ List.mem_append_right _ List.mem_cons_self))
    rw [alikeFrom_entered hne hnew, hzip, List.all_append, List.all_cons, ← hxy, Bool.false_and,
      Bool.and_false, Bool.and_false]

/-- Every comparison of two values ends, and gives whether they are structurally equal. -/
theorem compares_iff (h : Heap) (a b : Value) (result : Bool) :
    h.Compares [] a b result ↔ result = h.alike a b := by
  constructor
  · exact fun hc ↦ hc.eq_alikeFrom .start
  · rintro rfl
    exact compares_alikeFrom .start a b

end Termination

/-! ### Soundness and completeness -/

section Bisimilarity

variable {h : Heap} {assumed : List (ListRef × ListRef)} {a b : Value}

/-- The values whose comparison is assumed to succeed. -/
def Assumed (assumed : List (ListRef × ListRef)) (a b : Value) : Prop :=
  ∃ p ∈ assumed, a = .list p.1 ∧ b = .list p.2

/-- A relation that relates only what looks alike as far as it tells itself, or as is assumed. -/
def BisimulationUpTo (h : Heap) (assumed : List (ListRef × ListRef)) (R : Value → Value → Prop) : Prop :=
  ∀ a b, R a b → h.Likeness (fun x y ↦ R x y ∨ Assumed assumed x y) a b

theorem BisimulationUpTo.bisimulation {R : Value → Value → Prop} (hR : h.BisimulationUpTo [] R) :
    h.Bisimulation R :=
  fun a b hab ↦ (hR a b hab).mono fun x y hxy ↦ hxy.resolve_right (by simp [Assumed])

/-- A comparison that succeeds has its values related, up to what is assumed. The relation for two lists
that were entered holds the pair itself, besides the relations for their elements. -/
theorem Compares.sound {result : Bool} (hc : h.Compares assumed a b result) (htrue : result = true) :
    ∃ R, h.BisimulationUpTo assumed R ∧ (R a b ∨ Assumed assumed a b) := by
  induction hc with
  | literal a b =>
    refine ⟨fun x y ↦ x = .literal a ∧ y = .literal b, ?_, .inl ⟨rfl, rfl⟩⟩
    rintro _ _ ⟨rfl, rfl⟩
    exact .literal ((Literal.alike_iff a b).mp htrue)
  | object r s =>
    obtain rfl := eq_of_beq htrue
    refine ⟨fun x y ↦ x = .object r ∧ y = .object r, ?_, .inl ⟨rfl, rfl⟩⟩
    rintro _ _ ⟨rfl, rfl⟩
    exact .object r
  | kinds => cases htrue
  | same r =>
    refine ⟨fun x y ↦ x = .list r ∧ y = .list r, ?_, .inl ⟨rfl, rfl⟩⟩
    rintro _ _ ⟨rfl, rfl⟩
    exact .same r
  | assumed hmem => exact ⟨fun _ _ ↦ False, fun _ _ ↦ False.elim, .inr ⟨_, hmem, rfl, rfl⟩⟩
  | length => cases htrue
  | @equal assumed r s _ _ hlength _ ih =>
    -- What is assumed for the elements is the pair `(r, s)`, which is in the relation, and what is
    -- assumed already.
    let R : Value → Value → Prop := fun x y ↦
      (x = .list r ∧ y = .list s) ∨
        ∃ S, h.BisimulationUpTo ((r, s) :: assumed) S ∧ S x y
    have hcover : ∀ x y, Assumed ((r, s) :: assumed) x y → R x y ∨ Assumed assumed x y := by
      rintro x y ⟨p, hp, rfl, rfl⟩
      obtain rfl | hp := List.mem_cons.mp hp
      · exact .inl (.inl ⟨rfl, rfl⟩)
      · exact .inr ⟨p, hp, rfl, rfl⟩
    refine ⟨R, ?_, .inl (.inl ⟨rfl, rfl⟩)⟩
    rintro x y (⟨rfl, rfl⟩ | ⟨S, hS, hxy⟩)
    · refine .lists (List.forall₂_iff_zip.mpr ⟨hlength, fun {x y} hp ↦ ?_⟩)
      obtain ⟨S, hS, hxy | hxy⟩ := ih (x, y) hp rfl
      · exact .inl (.inr ⟨S, hS, hxy⟩)
      · exact hcover x y hxy
    · refine (hS x y hxy).mono fun u v huv ↦ ?_
      obtain huv | huv := huv
      · exact .inl (.inr ⟨S, hS, huv⟩)
      · exact hcover u v huv
  | differ => cases htrue

/-- A comparison of values that a bisimulation relates succeeds. -/
theorem Compares.complete {R : Value → Value → Prop} (hR : h.Bisimulation R) {result : Bool}
    (hc : h.Compares assumed a b result) (hab : R a b) : result = true := by
  induction hc with
  | literal a b =>
    cases hR _ _ hab with
    | literal heq => exact (Literal.alike_iff a b).mpr heq
  | object r s =>
    cases hR _ _ hab with
    | object r => exact beq_self_eq_true r
  | kinds hkinds =>
    cases hR _ _ hab <;> cases hkinds
  | same r => rfl
  | assumed => rfl
  | length hne _ hlength =>
    cases hR _ _ hab with
    | same r => exact absurd rfl hne
    | lists hitems => exact absurd hitems.length_eq hlength
  | equal => rfl
  | differ hne _ _ hzip _ _ _ ih =>
    cases hR _ _ hab with
    | same r => exact absurd rfl hne
    | lists hitems =>
      refine ih ((List.forall₂_iff_zip.mp hitems).2 ?_)
      rw [hzip]
      exact List.mem_append_right _ List.mem_cons_self

/-- Values are structurally equal if and only if some bisimulation relates them. -/
theorem alike_iff_bisimilar (h : Heap) (a b : Value) :
    h.alike a b = true ↔ ∃ R, h.Bisimulation R ∧ R a b := by
  have hc : h.Compares [] a b (h.alike a b) := compares_alikeFrom .start a b
  constructor
  · intro htrue
    obtain ⟨R, hR, hab⟩ := hc.sound htrue
    exact ⟨R, hR.bisimulation, hab.resolve_right (by simp [Assumed])⟩
  · rintro ⟨R, hR, hab⟩
    exact hc.complete hR hab

theorem bisimulation_alike (h : Heap) : h.Bisimulation fun a b ↦ h.alike a b = true := by
  intro a b hab
  obtain ⟨R, hR, hRab⟩ := (alike_iff_bisimilar h a b).mp hab
  exact (hR a b hRab).mono fun x y hxy ↦ (alike_iff_bisimilar h x y).mpr ⟨R, hR, hxy⟩

theorem alike_symm (hab : h.alike a b = true) : h.alike b a = true :=
  (alike_iff_bisimilar h b a).mpr ⟨_, (bisimulation_alike h).flip, hab⟩

theorem alike_comm (h : Heap) (a b : Value) : h.alike a b = h.alike b a :=
  Bool.eq_iff_iff.mpr ⟨alike_symm, alike_symm⟩

theorem alike_trans {c : Value} (hab : h.alike a b = true) (hbc : h.alike b c = true) :
    h.alike a c = true :=
  (alike_iff_bisimilar h a c).mpr
    ⟨_, (bisimulation_alike h).comp (bisimulation_alike h), .inr (.inr ⟨b, hab, hbc⟩)⟩

/-- A value is equal to itself unless it is a number that is not one. A list that holds such a number is
equal to itself all the same. -/
theorem alike_self (h : Heap) (a : Value) :
    h.alike a a = true ↔ ∀ x, a = .float x → x.isNaN = false := by
  cases a with
  | literal l => simpa [alike, alikeFrom] using l.alike_self
  | list r => simp [alike, alikeFrom]
  | object r => simp [alike, alikeFrom]

end Bisimilarity

/-- Structural equality of the values over a heap, whatever its lists hold. Comparing two values ends
without any bound on its depth; structural equality is a bisimulation, and two values are structurally
equal if and only if any bisimulation relates them. So it is symmetric and transitive, and reflexive but
for numbers that are not one. -/
theorem alike_bisimilar (h : Heap) :
    (∀ a b result, h.Compares [] a b result ↔ result = h.alike a b) ∧
      h.Bisimulation (fun a b ↦ h.alike a b = true) ∧
      (∀ a b, h.alike a b = true ↔ ∃ R, h.Bisimulation R ∧ R a b) ∧
      (∀ a b, h.alike a b = h.alike b a) ∧
      (∀ a b c, h.alike a b = true → h.alike b c = true → h.alike a c = true) ∧
      ∀ a, h.alike a a = true ↔ ∀ x, a = .float x → x.isNaN = false :=
  ⟨compares_iff h, bisimulation_alike h, alike_iff_bisimilar h, alike_comm h,
    fun _ _ _ ↦ alike_trans, alike_self h⟩

-- Two lists, each with 1 and itself, are structurally equal.
example : alike ⟨#[#[.int 1, .list ⟨0⟩], #[.int 1, .list ⟨1⟩]], #[]⟩ (.list ⟨0⟩) (.list ⟨1⟩) = true := by
  decide

end StackScript.Heap
