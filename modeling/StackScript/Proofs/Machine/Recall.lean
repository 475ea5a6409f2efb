import Mathlib
import StackScript.Proofs.Host.Lasting
import StackScript.Proofs.Machine.Outcome

/-!
# A machine that has been used is as good as a new one

After a run nothing is left on the stack, but the machine remembers the host types that it has found, and
does not ask for them again. As long as no call of the host changes its types, the host would answer what
the machine remembers (`Machine.Recalls`). So two machines that differ in nothing but what they remember
carry out all instructions alike (`Engine.uniform_step`), and runs end alike (`Engine.call_alike`).

Whatever has been done with a machine, it answers calls as a new machine over the same store does
(`call_eq_fresh`).
-/

namespace StackScript

variable {σ α β : Type} {find : σ → String → Option TypeHandle}

namespace Machine

/-- What the machine remembers of host types is what the host would answer now. -/
def Recalls (find : σ → String → Option TypeHandle) (m : Machine σ) : Prop :=
  ∀ name handle, m.resolved.lookup name = some handle → find m.store.host name = some handle

/-- The machine with other host types to remember. -/
def recalling (m : Machine σ) (resolved : List (String × TypeHandle)) : Machine σ :=
  m.withMemory ⟨resolved, m.store⟩

@[simp]
theorem recalling_recalling (m : Machine σ) (resolved resolved' : List (String × TypeHandle)) :
    (m.recalling resolved).recalling resolved' = m.recalling resolved' :=
  rfl

@[simp]
theorem store_recalling (m : Machine σ) (resolved : List (String × TypeHandle)) :
    (m.recalling resolved).store = m.store :=
  rfl

/-- Machines that differ at most in what they remember, and remember nothing wrong. -/
structure Alike (find : σ → String → Option TypeHandle) (m m' : Machine σ) : Prop where
  eq_recalling : m' = m.recalling m'.resolved
  left : m.Recalls find
  right : m'.Recalls find

theorem Alike.of_recalling {m : Machine σ} {resolved resolved' : List (String × TypeHandle)}
    (h : (m.recalling resolved).Recalls find) (h' : (m.recalling resolved').Recalls find) :
    (m.recalling resolved).Alike find (m.recalling resolved') :=
  ⟨rfl, h, h'⟩

theorem Alike.refl {m : Machine σ} (h : m.Recalls find) : m.Alike find m :=
  ⟨rfl, h, h⟩

theorem Alike.store_eq {m m' : Machine σ} (h : m.Alike find m') : m'.store = m.store := by
  rw [h.eq_recalling, store_recalling]

/-- So they do with nothing but given values on the stack. -/
theorem Alike.withStack {m m' : Machine σ} (h : m.Alike find m') (stack : Array Value) :
    ({ m.reset with stack := stack } : Machine σ).Alike find { m'.reset with stack := stack } := by
  refine ⟨?_, h.left, h.right⟩
  rw [h.eq_recalling]
  rfl

end Machine

/-! ### Work that makes nothing of it -/

namespace Step

/-- Work that is the same on machines that differ only in what they remember. -/
def Uniform (find : σ → String → Option TypeHandle) (x : Step σ α) : Prop :=
  ∀ m m', m.Alike find m' → (x.on m').1 = (x.on m).1 ∧ (x.on m).2.Alike find (x.on m').2

namespace Uniform

theorem pure (a : α) : Uniform find (pure a : Step σ α) :=
  fun _ _ h ↦ ⟨rfl, h⟩

theorem bind {x : Step σ α} {f : α → Step σ β} (hx : Uniform find x) (hf : ∀ a, Uniform find (f a)) :
    Uniform find (x >>= f) := by
  intro m m' h
  obtain ⟨hresult, hmachine⟩ := hx m m' h
  rw [on_bind, on_bind]
  rcases hr : x.on m with ⟨fault | a, m₁⟩ <;> rcases hr' : x.on m' with ⟨fault' | a', m₁'⟩ <;>
    rw [hr, hr'] at hresult hmachine <;> cases hresult
  · exact ⟨rfl, hmachine⟩
  · exact hf a m₁ m₁' hmachine

/-- Work that has nothing to do with what the machine remembers, and leaves the types of the host as they
are. -/
theorem of_unresolving {x : Step σ α}
    (h : ∀ m resolved, x.on (m.recalling resolved) = ((x.on m).1, (x.on m).2.recalling resolved))
    (hfind : ∀ m, find (x.on m).2.store.host = find m.store.host) : Uniform find x := by
  intro m m' halike
  have hresolved : (x.on m).2.resolved = m.resolved := by
    have := congrArg (·.2.resolved) (h m m.resolved)
    exact this
  have hm' : x.on m' = ((x.on m).1, (x.on m).2.recalling m'.resolved) := by
    rw [halike.eq_recalling, h]
    rfl
  rw [hm']
  refine ⟨rfl, rfl, ?_, ?_⟩ <;> intro name handle hlookup
  · rw [hfind]
    exact halike.left name handle (hresolved ▸ hlookup)
  · rw [Machine.store_recalling, hfind, ← halike.store_eq]
    exact halike.right name handle hlookup

theorem of_stackwise {x : Step σ α} (h : x.Stackwise) : Uniform find x := by
  refine .of_unresolving (fun m resolved ↦ ?_) fun m ↦ by rw [h.store_eq]
  rw [Machine.recalling, h, Machine.recalling, h.store_eq]

theorem onHeap (action : HeapAction α) : Uniform find (onHeap action : Step σ α) :=
  .of_unresolving (fun _ _ ↦ rfl) fun _ ↦ rfl

theorem onHost {call : HostCall σ α} (h : Respects (Unchanged fun s ↦ find s.2) call) :
    Uniform find (onHost call) :=
  .of_unresolving (fun _ _ ↦ rfl) fun m ↦ h (m.store.world, m.store.host)

end Uniform

end Step

namespace Engine

open Step

variable {e : Engine σ}

/-- A machine gets the answer of the host, be it from the host or from what it remembers. -/
theorem on_resolve? (hb : e.bridge.Lasting find) (name : String) {m : Machine σ} (h : m.Recalls find) :
    ∃ resolved, (e.resolve? name).on m = (.ok (find m.store.host name), m.recalling resolved) ∧
      (m.recalling resolved).Recalls find := by
  rcases hl : m.resolved.lookup name with _ | handle
  · have hask : (onHost (ExceptT.lift (e.bridge.resolve name))).on m =
        (.ok (find m.store.host name), m) := by
      have heq := hb.resolve_eq name (m.store.world, m.store.host)
      let answer := (e.bridge.resolve name).run (m.store.world, m.store.host)
      show (Except.ok answer.1, { m with store := ⟨m.store.globals, answer.2.1, answer.2.2⟩ }) = _
      rw [show answer = _ from heq]
    rw [resolve?, on_bind, on_get]
    simp only [hl]
    rw [on_bind, hask]
    rcases hf : find m.store.host name with _ | handle
    · exact ⟨m.resolved, rfl, h⟩
    · refine ⟨(name, handle) :: m.resolved, rfl, fun name' handle' hlookup ↦ ?_⟩
      change List.lookup name' ((name, handle) :: m.resolved) = some handle' at hlookup
      rw [List.lookup_cons] at hlookup
      split at hlookup
      · rename_i hname
        rw [beq_iff_eq.mp hname, ← Option.some.inj hlookup]
        exact hf
      · exact h name' handle' hlookup
  · refine ⟨m.resolved, ?_, h⟩
    rw [h name handle hl, resolve?, on_bind, on_get]
    simp only [hl]
    rfl

theorem MemoryPiece.uniform (hb : e.bridge.Lasting find) {x : Step σ α} (h : e.MemoryPiece x) :
    Uniform find x := by
  cases h with
  | globals | setGlobal | heap => exact .of_unresolving (fun _ _ ↦ rfl) fun _ ↦ rfl
  | newList | setElement | build | callBuiltin => exact .onHeap _
  | resolve? name =>
    intro m m' halike
    obtain ⟨resolved, hm, hr⟩ := on_resolve? hb name halike.left
    obtain ⟨resolved', hm', hr'⟩ := on_resolve? hb name halike.right
    -- both have the answer of the host, wherever each has it from
    rw [hm, hm', halike.store_eq]
    rw [halike.eq_recalling, Machine.recalling_recalling] at hr' ⊢
    exact ⟨rfl, .of_recalling hr hr'⟩
  | ask h => exact .onHost (hb.offers h)

theorem Made.uniform (hb : e.bridge.Lasting find) {x : Step σ α} (h : e.Made x) : Uniform find x := by
  induction h with
  | pure a => exact .pure a
  | bind _ _ hx hf => exact hx.bind hf
  | stack h => exact .of_stackwise h.stackwise
  | memory h => exact h.uniform hb

/-- Instructions are carried out alike. -/
theorem uniform_step (hb : e.bridge.Lasting find) (i : Instruction) (address : Nat) :
    Uniform find (e.step i address) :=
  (e.made_step i address).uniform hb

/-! ### Runs -/

/-- Runs that stand at the same place on machines that differ only in what they remember. -/
structure Progress.Alike (find : σ → String → Option TypeHandle) (p p' : Progress σ) : Prop where
  address : p'.address = p.address
  done : p'.done = p.done
  machine : p.machine.Alike find p'.machine

/-- The same results on such machines. -/
structure Outcome.Alike (find : σ → String → Option TypeHandle) (o o' : Outcome σ) : Prop where
  result : o'.1 = o.1
  machine : o.2.Alike find o'.2

theorem uniform_attempt (hb : e.bridge.Lasting find) (i : Instruction) (address done : Nat) :
    Uniform find (e.attempt i address done) := by
  by_cases hl : ∃ n, e.limits.steps = some n ∧ n ≤ done
  · obtain ⟨n, hs, hn⟩ := hl
    intro m m' halike
    rw [on_attempt_of_le hs hn, on_attempt_of_le hs hn]
    exact ⟨rfl, halike⟩
  · have hlt : ∀ n, e.limits.steps = some n → done < n := fun n hs ↦
      Nat.lt_of_not_le fun hn ↦ hl ⟨n, hs, hn⟩
    intro m m' halike
    rw [on_attempt hlt, on_attempt hlt]
    exact uniform_step hb i address m m' halike

theorem advance_alike (hb : e.bridge.Lasting find) {p p' : Progress σ} (h : p.Alike find p') :
    Sum.LiftRel (Outcome.Alike find) (Progress.Alike find) (e.advance p) (e.advance p') := by
  rcases hi : e.program.code[p.address]? with _ | i
  · have hi' : e.program.code[p'.address]? = none := h.address ▸ hi
    rw [e.advance_outside hi, e.advance_outside hi', h.address]
    exact .inl ⟨rfl, h.machine⟩
  · have hi' : e.program.code[p'.address]? = some i := h.address ▸ hi
    obtain ⟨hresult, hmachine⟩ := uniform_attempt hb i p.address p.done _ _ h.machine
    rw [e.advance_eq hi, e.advance_eq hi', h.address, h.done]
    rcases hx : (e.attempt i p.address p.done).on p.machine with ⟨result, m⟩
    rcases hx' : (e.attempt i p.address p.done).on p'.machine with ⟨result', m'⟩
    rw [hx, hx'] at hresult hmachine
    obtain rfl : result' = result := hresult
    rcases result' with fault | (_ | target | value)
    · exact .inl ⟨rfl, hmachine⟩
    · exact .inr ⟨rfl, rfl, hmachine⟩
    · exact .inr ⟨rfl, rfl, hmachine⟩
    · exact .inl ⟨rfl, hmachine⟩

theorem finish_alike (hb : e.bridge.Lasting find) (fuel : Nat) {p p' : Progress σ}
    (h : p.Alike find p') : Option.Rel (Outcome.Alike find) (e.finish fuel p) (e.finish fuel p') := by
  induction fuel generalizing p p' with
  | zero => exact .none
  | succ fuel ih =>
    have hadvance := advance_alike hb h
    rw [finish, finish]
    generalize e.advance p = next at hadvance ⊢
    generalize e.advance p' = next' at hadvance ⊢
    cases hadvance with
    | inl ho => exact .some ho
    | inr hq => exact ih hq

/-- Calls begin alike. -/
theorem start_alike (e : Engine σ) (name : String) (args : List Value) {m m' : Machine σ}
    (h : m.Alike find m') :
    (∃ r, e.start m name args = .error r ∧ e.start m' name args = .error r) ∨
      ∃ p p', e.start m name args = .ok p ∧ e.start m' name args = .ok p' ∧ p.Alike find p' := by
  unfold start
  rcases hf : e.program.function? name with _ | f
  · exact .inl ⟨_, rfl, rfl⟩
  · dsimp only
    split
    · exact .inl ⟨_, rfl, rfl⟩
    · exact .inr ⟨_, _, rfl, rfl, rfl, rfl, h.withStack args.toArray⟩

/-- Calls end alike. -/
theorem call_alike (hb : e.bridge.Lasting find) (fuel : Nat) (name : String) (args : List Value)
    {m m' : Machine σ} (h : m.Alike find m') :
    Option.Rel (Outcome.Alike find) (e.call fuel m name args) (e.call fuel m' name args) := by
  rcases e.start_alike name args h with ⟨r, hr, hr'⟩ | ⟨p, p', hp, hp', halike⟩
  · rw [e.call_eq_of_error fuel hr, e.call_eq_of_error fuel hr']
    exact .some ⟨rfl, h⟩
  · have hend := finish_alike hb fuel halike
    rw [e.call_eq fuel hp, e.call_eq fuel hp']
    generalize e.finish fuel p = finished at hend ⊢
    generalize e.finish fuel p' = finished' at hend ⊢
    cases hend with
    | none => exact .none
    | some ho => exact .some ⟨ho.result, ho.machine.withStack #[]⟩

/-! ### Histories -/

/-- A machine as it may be after whatever has been done with it: calls of functions of any programs,
under any limits and with any end, and in between calls of the host from outside, and changes to globals
and heap. -/
inductive Used (b : Bridge σ) : Machine σ → Prop
  | fresh (store : Store σ) : Used b (.fresh store)
  | call {m : Machine σ} (h : Used b m) {e : Engine σ} (hb : e.bridge = b) {fuel : Nat} {name : String}
    {args : List Value} {o : Outcome σ} (ho : e.call fuel m name args = some o) : Used b o.2
  | ask {m : Machine σ} (h : Used b m) {α : Type} {call : HostCall σ α} (hc : b.Offers call) :
    Used b ((Step.onHost call).on m).2
  | change {m : Machine σ} (h : Used b m) (globals : Globals) (world : World) :
    Used b { m with store := ⟨globals, world, m.store.host⟩ }

/-- Whatever has been done with it, a machine remembers nothing wrong. -/
theorem Used.recalls {b : Bridge σ} (hb : b.Lasting find) {m : Machine σ} (h : Used b m) :
    m.Recalls find := by
  induction h with
  | fresh store => exact fun _ _ h ↦ nomatch h
  | @call m _ e he fuel name args o ho ih =>
    -- a machine is carried through a call alike with itself
    subst he
    have hend := call_alike hb fuel name args (.refl ih)
    rw [ho] at hend
    cases hend with
    | some ho => exact ho.machine.left
  | ask _ hc ih => exact (Uniform.onHost (hb.offers hc) _ _ (.refl ih)).2.left
  | change _ globals world ih => exact ih

/-- Nothing is left on the stack of a machine between two runs. -/
theorem Used.reset_eq {b : Bridge σ} {m : Machine σ} (h : Used b m) : m.reset = m := by
  induction h with
  | fresh store => rfl
  | @call m _ e _ fuel name args o ho ih =>
    rcases hp : e.start m name args with r | p
    · rw [e.call_eq_of_error fuel hp] at ho
      cases ho
      exact ih
    · rw [e.call_eq fuel hp] at ho
      obtain ⟨o', -, rfl⟩ := Option.map_eq_some_iff.mp ho
      rfl
  | @ask m _ _ call _ ih =>
    rw [(Aside.onHost call).on_eq, ← ih]
    rfl
  | change _ globals world ih =>
    rw [← ih]
    rfl

/-- What is seen of a call: its result, and what it leaves in the store. -/
def Outcome.visible (o : Outcome σ) : Except Report Value × Store σ :=
  (o.1, o.2.store)

/-- A machine that has been used answers calls as a new one. -/
theorem call_eq_of_used (hb : e.bridge.Lasting find) {m : Machine σ} (hm : Used e.bridge m) (fuel : Nat)
    (name : String) (args : List Value) : (e.call fuel m name args).map Outcome.visible =
      (e.call fuel (.fresh m.store) name args).map Outcome.visible := by
  have halike : m.Alike find (.fresh m.store) := by
    refine ⟨?_, hm.recalls hb, fun _ _ h ↦ nomatch h⟩
    rw [← hm.reset_eq]
    rfl
  have hend := call_alike hb fuel name args halike
  generalize e.call fuel m name args = called at hend ⊢
  generalize e.call fuel (.fresh m.store) name args = called' at hend ⊢
  cases hend with
  | none => rfl
  | some ho =>
    rw [Option.map_some, Option.map_some, Outcome.visible, Outcome.visible, ho.result,
      ho.machine.store_eq]

end Engine

open Engine

/-- Whatever has been done with a machine over a registry, or over a host without types, it answers each
call as a new machine does that is given the same program, the same limits and the same store: with the
same result, and the same store left behind. -/
theorem call_eq_fresh (program : Program) (limits : Limits) (fuel : Nat) (name : String)
    (args : List Value) :
    (∀ m, Used Registry.bridge m →
      (call ⟨program, Registry.bridge, limits⟩ fuel m name args).map Outcome.visible =
        (call ⟨program, Registry.bridge, limits⟩ fuel (.fresh m.store) name args).map
          Outcome.visible) ∧
    (∀ m, Used Bridge.none m →
      (call ⟨program, Bridge.none, limits⟩ fuel m name args).map Outcome.visible =
        (call ⟨program, Bridge.none, limits⟩ fuel (.fresh m.store) name args).map Outcome.visible) :=
  ⟨fun _ hm ↦ call_eq_of_used (e := ⟨program, Registry.bridge, limits⟩) Registry.lasting hm fuel name
      args,
    fun _ hm ↦ call_eq_of_used (e := ⟨program, Bridge.none, limits⟩) Bridge.lasting_none hm fuel name
      args⟩

/-- A registry of one type, with a method that gives one and another one that fails. -/
def oneRegistry : Registry where
  types := [((TypeDef.named "A.B").addStatic "one" [] fun _ ↦ return .int 1).addStatic "fail" []
    fun _ ↦ throw (.failed "no")]

/-- A function that calls the one method, and another one that calls the other from a nested call. -/
def failingProgram : Program where
  code := #[⟨.openWindow, .none, 1⟩, ⟨.callStatic, .name "B.one", 1⟩, ⟨.giveBack, .none, 1⟩,
    ⟨.push, .literal (.int 7), 2⟩, ⟨.openWindow, .none, 2⟩, ⟨.openWindow, .none, 2⟩,
    ⟨.call, .name "h", 2⟩, ⟨.giveBack, .none, 2⟩,
    ⟨.openWindow, .none, 3⟩, ⟨.callStatic, .name "B.fail", 3⟩, ⟨.giveBack, .none, 3⟩]
  functions := [⟨"f", 0, 0⟩, ⟨"g", 0, 3⟩, ⟨"h", 0, 8⟩]
  globals := []

/-- After the failure of the second function the machine remembers the type, and the first function gives
one all the same. -/
theorem call_eq_fresh_failed :
    let e : Engine Registry := ⟨failingProgram, Registry.bridge, .standard⟩
    let store : Store Registry := ⟨.declared [], .empty, oneRegistry⟩
    ∃ o, e.call 9 (.fresh store) "g" [] = some o ∧ Used Registry.bridge o.2 ∧
      o.2.resolved = [("B", ⟨0⟩)] ∧
      (e.call 9 o.2 "f" []).map Outcome.visible =
        (e.call 9 (.fresh o.2.store) "f" []).map Outcome.visible := by
  intro e store
  have hrun : (e.call 9 (.fresh store) "g" []).map (·.2.resolved) = some [("B", ⟨0⟩)] := by cbv
  obtain ⟨o, ho, hresolved⟩ := Option.map_eq_some_iff.mp hrun
  have hused : Used Registry.bridge o.2 := .call (.fresh store) (e := e) rfl ho
  exact ⟨o, ho, hused, hresolved,
    (call_eq_fresh failingProgram .standard 9 "f" []).1 o.2 hused⟩

end StackScript
