import StackScript.Proofs.Machine.Growth
import StackScript.Proofs.Machine.Outcome

/-!
# Limits cut runs short

Limits decide how far a run gets and nothing else (`limits_cut_short`). A run that ends by itself under
some limits ends in the same way under larger ones. Of a run without a limit on the instructions, one
with such a limit is the beginning: after as many instructions as are allowed it stops where the other
one goes on, and leaves behind what those instructions have done.

That needs that nothing but counting instructions ever reports too many of them. No single piece of an
instruction does (`Engine.uncounted_step`).
-/

namespace StackScript

variable {σ α β : Type}

/-! ### Instructions do not count themselves -/

namespace Step

/-- Work that never reports that there were too many instructions. -/
def Uncounted (x : Step σ α) : Prop :=
  ∀ m n, (x.on m).1 ≠ .error (.stepLimitExceeded n)

namespace Uncounted

theorem pure (a : α) : Uncounted (pure a : Step σ α) :=
  fun _ _ h ↦ nomatch h

theorem throw {fault : Fault} (h : ∀ n, fault ≠ .stepLimitExceeded n) :
    Uncounted (throw fault : Step σ α) :=
  fun _ n hn ↦ h n (Except.error.inj hn)

theorem get : Uncounted (get : Step σ (Machine σ)) :=
  fun _ _ h ↦ nomatch h

theorem set (m : Machine σ) : Uncounted (set m : Step σ PUnit) :=
  fun _ _ h ↦ nomatch h

theorem modify (f : Machine σ → Machine σ) : Uncounted (modify f : Step σ PUnit) :=
  fun _ _ h ↦ nomatch h

theorem bind {x : Step σ α} {f : α → Step σ β} (hx : Uncounted x) (hf : ∀ a, Uncounted (f a)) :
    Uncounted (x >>= f) := by
  intro m n h
  rw [on_bind] at h
  rcases hr : x.on m with ⟨fault | a, m'⟩ <;> rw [hr] at h
  · cases h
    exact hx m n (by rw [hr])
  · exact hf a m' n h

theorem ite {p : Prop} [Decidable p] {x y : Step σ α} (hx : Uncounted x) (hy : Uncounted y) :
    Uncounted (if p then x else y) := by
  split
  · exact hx
  · exact hy

theorem of_clean {x : Step σ α} (h : Clean x) : Uncounted x :=
  fun m _ hn ↦ h m _ hn

/-- Work that begins with a check. -/
theorem guard {p : Prop} [Decidable p] {fault : Fault} (h : ∀ n, fault ≠ .stepLimitExceeded n)
    {x : Step σ α} (hx : Uncounted x) :
    Uncounted (do
      if p then MonadExcept.throw fault
      x) :=
  .ite (.bind (.throw h) fun _ ↦ hx) hx

theorem pop : Uncounted (pop : Step σ Value) := by
  refine .bind .get fun m ↦ ?_
  split
  · exact .throw fun _ h ↦ nomatch h
  · exact .bind (.set _) fun _ ↦ .pure _

theorem closeWindow : Uncounted (closeWindow : Step σ Nat) := by
  refine .bind .get fun m ↦ ?_
  split
  · exact .throw fun _ h ↦ nomatch h
  · exact .bind (.set _) fun _ ↦ .guard (by nofun) (.pure _)

end Uncounted

end Step

namespace Engine

open Step

variable {e : Engine σ}

theorem uncounted_checkStack : Uncounted e.checkStack :=
  .bind .get fun _ ↦ .ite (.throw fun _ h ↦ nomatch h) (.pure _)

theorem uncounted_push (v : Value) : Uncounted (e.push v) :=
  .bind (.modify _) fun _ ↦ uncounted_checkStack

theorem uncounted_leave : Uncounted e.leave := by
  refine .bind .pop fun result ↦ .bind .get fun m ↦ ?_
  split
  · exact .pure _
  · exact .bind (.set _) fun _ ↦ .bind (uncounted_push _) fun _ ↦ .pure _

theorem uncounted_enter (name : String) (returnAddress : Nat) :
    Uncounted (e.enter name returnAddress) := by
  unfold enter
  split
  · exact .throw fun _ h ↦ nomatch h
  · exact .bind .closeWindow fun start ↦ .bind .get fun m ↦ .guard (by nofun)
      (.guard (by nofun) (.bind (.set _) fun _ ↦ .pure _))

theorem StackPiece.uncounted {x : Step σ α} (h : e.StackPiece x) : Uncounted x := by
  cases h with
  | throw h => exact .throw fun n hn ↦ h (hn ▸ trivial)
  | pop => exact .pop
  | peek =>
    refine .bind .get fun m ↦ ?_
    split
    · exact .throw fun _ h ↦ nomatch h
    · exact .pure _
  | discard count => exact .bind .get fun _ ↦ .guard (by nofun) (.set _)
  | getLocal slot =>
    refine .bind .get fun m ↦ ?_
    split
    · exact .throw fun _ h ↦ nomatch h
    · exact .pure _
  | setLocal slot value => exact .bind .get fun _ ↦ .guard (by nofun) (.set _)
  | openWindow => exact .modify _
  | takeWindow => exact .bind .closeWindow fun _ ↦ .bind .get fun _ ↦ .bind (.set _) fun _ ↦ .pure _
  | push value => exact uncounted_push value
  | duplicate count =>
    exact .bind .get fun _ ↦ .guard (by nofun) (.bind (.set _) fun _ ↦ uncounted_checkStack)
  | enter name returnAddress => exact uncounted_enter name returnAddress
  | leave => exact uncounted_leave

theorem Made.uncounted {x : Step σ α} (h : e.Made x) : Uncounted x := by
  induction h with
  | pure a => exact .pure a
  | bind _ _ hx hf => exact hx.bind hf
  | stack h => exact h.uncounted
  | memory h => exact .of_clean h.aside.clean

/-- No instruction reports that there were too many. -/
theorem uncounted_step (i : Instruction) (address : Nat) : Uncounted (e.step i address) :=
  (e.made_step i address).uncounted

/-! ### Counting the instructions of a run -/

variable {l : Limits} {p q : Progress σ} {n k : Nat} {o : Outcome σ}

/-- Without a limit on the instructions, a run never ends because there were too many. -/
theorem fault_of_advance_inl (hs : e.limits.steps = none) (h : e.advance p = .inl o) {r : Report}
    (hr : o.1 = .error r) (n : Nat) : r.fault ≠ .stepLimitExceeded n := by
  rcases hi : e.program.code[p.address]? with _ | i
  · rw [e.advance_outside hi] at h
    cases h
    cases hr
    exact fun h ↦ nomatch h
  · rw [e.advance_eq hi, on_attempt fun n hn ↦ nomatch hs.symm.trans hn] at h
    have hstep := uncounted_step (e := e) i p.address p.machine n
    split at h <;> rename_i hx <;> cases h <;> cases hr
    rw [hx] at hstep
    exact fun hf ↦ hstep (congrArg Except.error hf)

theorem fault_of_advances_inl (hs : e.limits.steps = none) (h : e.advances k p = .inl o) {r : Report}
    (hr : o.1 = .error r) (n : Nat) : r.fault ≠ .stepLimitExceeded n := by
  induction k generalizing p with
  | zero => cases h
  | succ k ih =>
    rw [advances] at h
    rcases hp : e.advance p with o' | p' <;> rw [hp] at h
    · cases h
      exact fault_of_advance_inl hs hp hr n
    · exact ih h

/-- As long as a limit on the instructions is not reached, it makes no difference. -/
theorem advances_within_steps (e : Engine σ) (hs : l.steps = none) (hk : p.done + k ≤ n) :
    (e.within { l with steps := some n }).advances k p = (e.within l).advances k p := by
  induction k generalizing p with
  | zero => rfl
  | succ k ih =>
    have hone := e.advance_within_steps (l := l) (p := p) (n := n) (by omega)
      fun _ h ↦ nomatch hs.symm.trans h
    rw [advances, advances, hone]
    rcases hp : (e.within l).advance p with o | p'
    · rfl
    · have hdone := (e.within l).advance_done hp
      exact ih (by omega)

/-- Where the limit on the instructions is reached, the run ends as it stands. -/
theorem advance_of_steps_le (hs : e.limits.steps = some n) (hn : n ≤ p.done) {i : Instruction}
    (hi : e.program.code[p.address]? = some i) :
    e.advance p = .inl (.error (failureAt i (.stepLimitExceeded n)), p.machine) := by
  rw [e.advance_eq hi, on_attempt_of_le hs hn]

/-- A call that carries out `n` instructions and comes to another one, `i`, which it carries out as well
unless that is one too many. -/
def Outlasts (e : Engine σ) (m : Machine σ) (name : String) (args : List Value) (n : Nat)
    (q : Progress σ) (i : Instruction) : Prop :=
  ∃ p, e.start m name args = .ok p ∧ e.advances n p = .inr q ∧ e.program.code[q.address]? = some i

variable (e : Engine σ) {m m' : Machine σ} {name : String} {args : List Value} {r : Report}
  {i : Instruction}

/-- A call that ends by itself ends in the same way under larger limits. -/
theorem call_within_of_le {l' : Limits} (h : l ≤ l') {fuel : Nat}
    (ho : (e.within l).call fuel m name args = some o) (hl : ¬ o.IsLimit) :
    (e.within l').call fuel m name args = some o := by
  rcases hp : e.start m name args with r | p
  · rw [(e.within l).call_eq_of_error fuel hp] at ho
    rw [(e.within l').call_eq_of_error fuel hp, ho]
  · rw [(e.within l).call_eq fuel hp] at ho
    obtain ⟨o', hf, rfl⟩ := Option.map_eq_some_iff.mp ho
    rw [(e.within l').call_eq fuel hp, e.finish_within_of_le h hf hl, Option.map_some]

/-- Until then it takes the same course, instruction by instruction. -/
theorem advances_within_of_le {l' : Limits} (h : l ≤ l') {fuel : Nat}
    (ho : (e.within l).finish fuel p = some o) (hl : ¬ o.IsLimit) (k : Nat) :
    (e.within l').advances k p = (e.within l).advances k p := by
  induction fuel generalizing p k with
  | zero => cases ho
  | succ fuel ih =>
    cases k with
    | zero => rfl
    | succ k =>
      rw [finish] at ho
      rw [advances, advances]
      rcases e.advance_within h p with ⟨o', hx, hl'⟩ | hx
      · rw [hx] at ho
        obtain rfl := Option.some.inj ho
        exact absurd hl' hl
      · rw [← hx]
        rcases hy : (e.within l).advance p with o' | q
        · rfl
        · rw [hy] at ho
          exact ih ho k

/-- A run that would go on longer than allowed is stopped after as many instructions as are allowed. -/
theorem call_of_outlasts (hs : l.steps = none) (h : (e.within l).Outlasts m name args n q i) :
    (e.within { l with steps := some n }).call (n + 1) m name args =
      some (.error (failureAt i (.stepLimitExceeded n)), q.machine.reset) := by
  obtain ⟨p, hp, hrun, hi⟩ := h
  -- up to the limit the run is the one without it
  have hzero : p.done = 0 := (e.within l).start_done hp
  have hdone := advances_done hrun
  rw [← advances_within_steps (n := n) e hs (by omega)] at hrun
  have hstop := advance_of_steps_le (e := e.within { l with steps := some n }) rfl
    (by omega : n ≤ q.done) hi
  rw [(e.within { l with steps := some n }).call_eq (n + 1) hp, finish_add hrun, finish, hstop,
    Option.map_some]

/-- A run that is stopped for its number of instructions would go on, were it not. -/
theorem outlasts_of_call (hs : l.steps = none) {fuel : Nat}
    (ho : (e.within { l with steps := some n }).call fuel m name args = some (.error r, m'))
    (hr : r.fault = .stepLimitExceeded n) :
    ∃ q i, (e.within l).Outlasts m name args n q i ∧ r = failureAt i (.stepLimitExceeded n) ∧
      m' = q.machine.reset := by
  rcases hp : (e.within l).start m name args with r' | p
  · have hfree := (e.within l).start_not_isLimit hp
    rw [(e.within { l with steps := some n }).call_eq_of_error fuel hp] at ho
    cases ho
    rw [hr] at hfree
    exact absurd trivial hfree
  · have hzero : p.done = 0 := (e.within l).start_done hp
    have hsame := advances_within_steps e (l := l) (p := p) (n := n) (k := n) hs (by omega)
    rw [(e.within { l with steps := some n }).call_eq fuel hp] at ho
    obtain ⟨⟨result, m₁⟩, hf, heq⟩ := Option.map_eq_some_iff.mp ho
    cases heq
    rcases hrun : (e.within l).advances n p with o' | q
    · -- the run is over before the limit counts, and for another reason
      obtain rfl := finish_of_advances_inl (hsame.trans hrun) hf
      exact absurd hr (fault_of_advances_inl hs hrun rfl n)
    · obtain ⟨fuel', -, hrest⟩ := exists_finish (hsame.trans hrun) hf
      have hdone := advances_done hrun
      rcases hi : e.program.code[q.address]? with _ | i
      · have hstop := finish_of_advances_inl (n := 1)
          ((advances_one q).trans ((e.within { l with steps := some n }).advance_outside hi)) hrest
        cases hstop
        cases hr
      · have hlast := advance_of_steps_le (e := e.within { l with steps := some n }) rfl
          (by omega : n ≤ q.done) hi
        have hstop := finish_of_advances_inl (n := 1) ((advances_one q).trans hlast) hrest
        cases hstop
        exact ⟨q, i, ⟨p, hp, hrun, hi⟩, rfl, rfl⟩

end Engine

/-- Limits only cut runs short.

A call that ends under some limits, and not because it reached one, ends under all larger limits with
the same outcome: the same result, and the same globals, lists and host left behind. It also gets there in
the same way: after any number of instructions the one run stands where the other one does, on the same
machine, so that the host is called in the same way.

A call with a limit of `n` instructions that is otherwise free to carry out any number of them ends with
the fault of this limit exactly when without the limit it goes on to one more instruction than that. What it
leaves behind is what its first `n` instructions have done. -/
theorem limits_cut_short (e : Engine σ) (m : Machine σ) (name : String) (args : List Value)
    (l : Limits) :
    (∀ l', l ≤ l' → ∀ fuel o, (e.within l).call fuel m name args = some o → ¬ o.IsLimit →
      (e.within l').call fuel m name args = some o ∧
        ∀ p, e.start m name args = .ok p →
          ∀ k, (e.within l').advances k p = (e.within l).advances k p) ∧
    (l.steps = none → ∀ n r m',
      (∃ fuel, (e.within { l with steps := some n }).call fuel m name args = some (.error r, m') ∧
        r.fault = .stepLimitExceeded n) ↔
      ∃ q i, (e.within l).Outlasts m name args n q i ∧
        r = Engine.failureAt i (.stepLimitExceeded n) ∧ m' = q.machine.reset) := by
  refine ⟨fun l' h fuel o ho hl ↦ ⟨e.call_within_of_le h ho hl, fun p hp k ↦ ?_⟩,
    fun hs n r m' ↦ ⟨?_, ?_⟩⟩
  · rw [(e.within l).call_eq fuel hp] at ho
    obtain ⟨o', hf, rfl⟩ := Option.map_eq_some_iff.mp ho
    exact e.advances_within_of_le h hf hl k
  · rintro ⟨fuel, ho, hr⟩
    exact e.outlasts_of_call hs ho hr
  · rintro ⟨q, i, h, rfl, rfl⟩
    exact ⟨n + 1, e.call_of_outlasts hs h, rfl⟩

/-- A function that stores two numbers in a global, one after the other. -/
def storingProgram : Program where
  code := #[⟨.push, .literal (.int 1), 1⟩, ⟨.setGlobal, .name "x", 1⟩, ⟨.pop, .count 1, 1⟩,
    ⟨.push, .literal (.int 2), 2⟩, ⟨.setGlobal, .name "x", 2⟩, ⟨.giveBack, .none, 2⟩]
  functions := [⟨"f", 0, 0⟩]
  globals := ["x"]

/-- With room for one value that function runs as with the usual limits. With three instructions it gets
to the second number, and leaves the first. -/
theorem limits_cut_short_storingProgram :
    let e : Engine Unit := ⟨storingProgram, .none, .standard⟩
    let m : Machine Unit := .fresh ⟨.declared ["x"], .empty, ()⟩
    let left (n : Int32) : Machine Unit := .fresh ⟨⟨[("x", some (.int n))]⟩, .empty, ()⟩
    e.call 6 m "f" [] = some (.ok (.int 2), left 2) ∧
      ∃ fuel, (e.within ⟨4096, 256, some 3⟩).call fuel m "f" [] =
        some (.error ⟨.stepLimitExceeded 3, some ⟨2, 0⟩, none⟩, left 1) := by
  intro e m left
  have hcut := limits_cut_short e m "f" []
  have hle : (⟨1, 0, some 6⟩ : Limits) ≤ .standard :=
    ⟨by decide, by decide, fun _ h ↦ nomatch h⟩
  have hsmall : (e.within ⟨1, 0, some 6⟩).call 6 m "f" [] = some (.ok (.int 2), left 2) := rfl
  refine ⟨((hcut ⟨1, 0, some 6⟩).1 .standard hle 6 _ hsmall ?_).1, ?_⟩
  · rintro ⟨r, hr, -⟩
    cases hr
  · let q : Engine.Progress Unit := ⟨3, 3, left 1⟩
    have hout : (e.within .standard).Outlasts m "f" [] 3 q ⟨.push, .literal (.int 2), 2⟩ :=
      ⟨⟨0, 0, m⟩, rfl, rfl, rfl⟩
    obtain ⟨fuel, ho, -⟩ := ((hcut .standard).2 rfl 3 _ _).mpr ⟨q, _, hout, rfl, rfl⟩
    exact ⟨fuel, ho⟩

end StackScript
