import Mathlib
import StackScript.Host.Registry
import StackScript.Proofs.Layout.Literals
import StackScript.Proofs.Machine.Hostless
import StackScript.Proofs.Machine.Outcome
import StackScript.Proofs.Reading.Script

/-!
# Scripts that keep to themselves

A program that asks the host for no type can reach objects of the host only through values that it is
given. If there are no such objects behind its arguments and behind the globals, its runs need no host
(`Engine.call_hosted`): over any two hosts they come to the same, and not one request is made of either of
them (`call_secluded`).

That no request is made is told with the help of hosts that write down what is asked of them
(`Bridge.recorded`).
-/

namespace StackScript

variable {σ τ α : Type}

/-- A program that asks for no type of its host, and has no values but literals in its code. -/
structure Program.Secluded (p : Program) : Prop where
  asks : ∀ i ∈ p.code, i.op ∉ Operation.asking
  literals : Code.Literals p.code.toList

namespace Engine

open Step

/-- Where a run stands over a host. -/
def Progress.hosted (p : Progress Unit) (resolved : List (String × TypeHandle)) (host : σ) : Progress σ :=
  ⟨p.address, p.done, p.machine.hosted resolved host⟩

/-- The end of a run over a host. -/
def Outcome.hosted (o : Outcome Unit) (resolved : List (String × TypeHandle)) (host : σ) : Outcome σ :=
  (o.1, o.2.hosted resolved host)

variable {e : Engine σ}

theorem alone_attempt {i : Instruction} (hop : i.op ∉ Operation.asking)
    (hliteral : ∀ v, i.operand = .literal v → v.isLiteral = true) (address done : Nat) :
    Alone [] (e.attempt i address done) (e.hostless.attempt i address done) fun _ ↦ [] := by
  intro m hm hheld
  -- the limits are those of the engine without a host
  by_cases hl : ∃ n, e.limits.steps = some n ∧ n ≤ done
  · obtain ⟨n, hs, hn⟩ := hl
    exact .congr (on_attempt_of_le hs hn) (on_attempt_of_le (e := e.hostless) hs hn)
      (Alone.throw (.stepLimitExceeded n) m hm hheld)
  · have hlt : ∀ n, e.limits.steps = some n → done < n := fun n hs ↦
      Nat.lt_of_not_le fun hn ↦ hl ⟨n, hs, hn⟩
    exact .congr (on_attempt hlt) (on_attempt (e := e.hostless) hlt)
      (e.alone_step hop hliteral address m hm hheld)

/-- A run goes on over any host as it does without one, and stays domestic. -/
theorem advance_hosted (hp : e.program.Secluded) {p : Progress Unit} (hdomestic : p.machine.Domestic)
    (resolved : List (String × TypeHandle)) (host : σ) :
    e.advance (p.hosted resolved host) =
        (e.hostless.advance p).map (·.hosted resolved host) (·.hosted resolved host) ∧
      ∀ q, e.hostless.advance p = .inr q → q.machine.Domestic := by
  rcases hi : e.program.code[p.address]? with - | i
  · have hi₀ : e.hostless.program.code[p.address]? = none := hi
    rw [e.hostless.advance_outside hi₀, e.advance_outside (p := p.hosted resolved host) hi]
    exact ⟨rfl, fun _ hq ↦ nomatch hq⟩
  · have hi₀ : e.hostless.program.code[p.address]? = some i := hi
    have hmem : i ∈ e.program.code := Array.mem_of_getElem? hi
    have hstep := alone_attempt (e := e) (hp.asks i hmem)
      (hp.literals i (Array.mem_toList_iff.mpr hmem)) p.address p.done p.machine hdomestic
      fun _ hv ↦ nomatch hv
    have hover : (e.attempt i (p.hosted resolved host).address (p.hosted resolved host).done).on
        (p.hosted resolved host).machine = _ := hstep.hosted resolved host
    have hkept := hstep.domestic
    rw [e.hostless.advance_eq hi₀, e.advance_eq (p := p.hosted resolved host) hi, hover]
    generalize (e.hostless.attempt i p.address p.done).on p.machine = worked at hkept ⊢
    rcases worked with ⟨fault | flow, m⟩
    · exact ⟨rfl, fun _ hq ↦ nomatch hq⟩
    · cases flow with
      | next => exact ⟨rfl, fun _ hq ↦ Sum.inr.inj hq ▸ hkept⟩
      | jump target => exact ⟨rfl, fun _ hq ↦ Sum.inr.inj hq ▸ hkept⟩
      | halt value => exact ⟨rfl, fun _ hq ↦ nomatch hq⟩

/-- A run ends over any host as it does without one. -/
theorem finish_hosted (hp : e.program.Secluded) (fuel : Nat) {p : Progress Unit}
    (hdomestic : p.machine.Domestic) (resolved : List (String × TypeHandle)) (host : σ) :
    e.finish fuel (p.hosted resolved host) =
      (e.hostless.finish fuel p).map (·.hosted resolved host) := by
  induction fuel generalizing p with
  | zero => rfl
  | succ fuel ih =>
    obtain ⟨hover, hkept⟩ := advance_hosted hp hdomestic resolved host
    rw [finish, finish, hover]
    rcases hnext : e.hostless.advance p with o | q
    · rfl
    · exact ih (hkept q hnext)

/-- Calls begin over any host as they do without one. -/
theorem start_hosted (e : Engine σ) (m : Machine Unit) (name : String) (args : List Value)
    (resolved : List (String × TypeHandle)) (host : σ) :
    e.start (m.hosted resolved host) name args =
      (e.hostless.start m name args).map (·.hosted resolved host) := by
  have hprogram : e.hostless.program = e.program := rfl
  unfold start
  rw [hprogram]
  rcases e.program.function? name with - | f
  · rfl
  · dsimp only
    by_cases harity : f.arity ≠ args.length
    · rw [if_pos harity, if_pos harity]
      rfl
    · rw [if_neg harity, if_neg harity]
      rfl

/-- A machine is domestic at the beginning of a call if the arguments and globals are. -/
theorem domestic_of_start {e : Engine Unit} {m : Machine Unit} {name : String} {args : List Value}
    {p : Progress Unit} (hargs : ∀ v ∈ args, m.heap.Domestic v)
    (hglobals : ∀ name v, m.store.globals.get? name = some v → m.heap.Domestic v)
    (hp : e.start m name args = .ok p) : p.machine.Domestic := by
  unfold start at hp
  split at hp
  · cases hp
  · split at hp <;> cases hp
    exact ⟨fun v hv ↦ hargs v (by simpa using hv), hglobals⟩

/-- A call ends over its host as it does without one. -/
theorem call_hosted (hp : e.program.Secluded) (fuel : Nat) {m : Machine σ} (name : String)
    {args : List Value} (hargs : ∀ v ∈ args, m.heap.Domestic v)
    (hglobals : ∀ name v, m.store.globals.get? name = some v → m.heap.Domestic v) :
    e.call fuel m name args =
      (e.hostless.call fuel m.hostless name args).map (·.hosted m.resolved m.store.host) := by
  have hstart := e.start_hosted m.hostless name args m.resolved m.store.host
  rw [Machine.hosted_hostless] at hstart
  rcases hbegin : e.hostless.start m.hostless name args with r | p <;> rw [hbegin] at hstart
  · rw [e.call_eq_of_error fuel hstart, e.hostless.call_eq_of_error fuel hbegin]
    rfl
  · rw [e.call_eq fuel hstart, e.hostless.call_eq fuel hbegin,
      finish_hosted hp fuel (domestic_of_start hargs hglobals hbegin)]
    rcases e.hostless.finish fuel p with - | o <;> rfl

/-- What is seen of a call by those who do not see the host: the result, and the globals, lists and
objects left behind. -/
def Outcome.seen (o : Outcome σ) : Except Report Value × Globals × World :=
  (o.1, o.2.store.globals, o.2.store.world)

/-- What a machine had on its stack before plays no part in a call. -/
theorem call_reset (e : Engine σ) (fuel : Nat) (m : Machine σ) (name : String) (args : List Value) :
    (e.call fuel m.reset name args).map Outcome.seen = (e.call fuel m name args).map Outcome.seen := by
  have hstart : e.start m.reset name args = e.start m name args := rfl
  rcases hbegin : e.start m name args with r | p <;> rw [hbegin] at hstart
  · rw [e.call_eq_of_error fuel hstart, e.call_eq_of_error fuel hbegin]
    rfl
  · rw [e.call_eq fuel hstart, e.call_eq fuel hbegin]

end Engine

/-! ### Hosts that write down what is asked of them -/

/-- What may be asked of a host. -/
inductive Request where
  | resolve (name : String)
  | construct (type : TypeHandle) (args : List Value)
  | invoke (receiver : Receiver) (method : String) (args : List Value)
  | getField (receiver : Receiver) (field : String)
  | setField (receiver : Receiver) (field : String) (value : Value)

/-- Answers a request as before, and writes it down. -/
def Request.record (r : Request) (answer : StateM (World × σ) α) :
    StateM (World × σ × List Request) α := fun (world, host, log) ↦
  let (result, world, host) := answer.run (world, host)
  (result, world, host, log ++ [r])

/-- The bridge to the same host that writes down every request. -/
def Bridge.recorded (b : Bridge σ) : Bridge (σ × List Request) where
  resolve name := (Request.resolve name).record (b.resolve name)
  construct t args := (Request.construct t args).record (b.construct t args)
  invoke r method args := (Request.invoke r method args).record (b.invoke r method args)
  getField r field := (Request.getField r field).record (b.getField r field)
  setField r field value := (Request.setField r field value).record (b.setField r field value)

/-- The machine over the host with what has been written down. -/
def Machine.recording (m : Machine σ) (log : List Request) : Machine (σ × List Request) :=
  m.hostless.hosted m.resolved (m.store.host, log)

namespace Engine

/-- The end of a run over such a host. -/
def Outcome.recording (o : Outcome σ) (log : List Request) : Outcome (σ × List Request) :=
  (o.1, o.2.recording log)

/-- A call that writes down no request. -/
def Unasking (program : Program) (b : Bridge σ) (limits : Limits) (fuel : Nat) (m : Machine σ)
    (name : String) (args : List Value) : Prop :=
  ∀ log, call ⟨program, b.recorded, limits⟩ fuel (m.recording log) name args =
    (call ⟨program, b, limits⟩ fuel m name args).map (·.recording log)

/-- Without anything of the host within reach, no request is made. -/
theorem unasking_of_secluded {program : Program} (hp : program.Secluded) (b : Bridge σ)
    (limits : Limits) (fuel : Nat) {m : Machine σ} (name : String) {args : List Value}
    (hargs : ∀ v ∈ args, m.heap.Domestic v)
    (hglobals : ∀ name v, m.store.globals.get? name = some v → m.heap.Domestic v) :
    Unasking program b limits fuel m name args := by
  -- both calls end as the one without a host, and a machine put over a host is over it at the end
  intro log
  rw [call_hosted (e := ⟨program, b, limits⟩) hp fuel name hargs hglobals,
    call_hosted (e := ⟨program, b.recorded, limits⟩) (m := m.recording log) hp fuel name hargs hglobals,
    Option.map_map]
  rfl

/-- What is seen of a call then is what is seen without a host. -/
theorem seen_of_secluded {program : Program} (hp : program.Secluded) (b : Bridge σ)
    (limits : Limits) (fuel : Nat) {m : Machine σ} (name : String) {args : List Value}
    (hargs : ∀ v ∈ args, m.heap.Domestic v)
    (hglobals : ∀ name v, m.store.globals.get? name = some v → m.heap.Domestic v) :
    (call ⟨program, b, limits⟩ fuel m name args).map Outcome.seen =
      (call ⟨program, .none, limits⟩ fuel (.fresh ⟨m.store.globals, m.store.world, ()⟩) name args).map
        Outcome.seen := by
  rw [call_hosted (e := ⟨program, b, limits⟩) hp fuel name hargs hglobals, Option.map_map]
  exact (call_reset ⟨program, .none, limits⟩ fuel m.hostless name args).symm

end Engine

open Engine

/-- The values in the code of a compiled program are literals. -/
theorem secluded_of_compile {source : String} {c : Compiled} (h : compile source = .ok c)
    (hasks : ∀ i ∈ c.program.code, i.op ∉ Operation.asking) : c.program.Secluded := by
  refine ⟨hasks, ?_⟩
  rw [(program_of_compile h).2]
  exact Script.literals_program true _

/-- A compiled program that asks for no type of its host has nothing to do with it, as long as no object
of the host is within reach of the arguments and of the globals. Over any two hosts a call comes to the same
result and leaves the same globals, lists and objects behind, if it ends, and it makes no request of
either. -/
theorem call_secluded {source : String} {c : Compiled} (h : compile source = .ok c)
    (hasks : ∀ i ∈ c.program.code, i.op ∉ Operation.asking) (b : Bridge σ) (b' : Bridge τ)
    (limits : Limits) (fuel : Nat) (name : String) {args : List Value} {m : Machine σ} {m' : Machine τ}
    (hargs : ∀ v ∈ args, m.heap.Domestic v)
    (hdomestic : ∀ name v, m.store.globals.get? name = some v → m.heap.Domestic v)
    (hglobals : m'.store.globals = m.store.globals) (hworld : m'.store.world = m.store.world) :
    (call ⟨c.program, b, limits⟩ fuel m name args).map Outcome.seen =
        (call ⟨c.program, b', limits⟩ fuel m' name args).map Outcome.seen ∧
      Unasking c.program b limits fuel m name args ∧
      Unasking c.program b' limits fuel m' name args := by
  have hp := secluded_of_compile h hasks
  have hheap : m'.heap = m.heap := congrArg World.heap hworld
  have hargs' : ∀ v ∈ args, m'.heap.Domestic v := hheap ▸ hargs
  have hdomestic' : ∀ name v, m'.store.globals.get? name = some v → m'.heap.Domestic v := by
    rw [hheap, hglobals]
    exact hdomestic
  -- what a host remembers and is does not count, as both calls end like the one without a host
  refine ⟨?_, unasking_of_secluded hp b limits fuel name hargs hdomestic,
    unasking_of_secluded hp b' limits fuel name hargs' hdomestic'⟩
  rw [seen_of_secluded hp b limits fuel name hargs hdomestic,
    seen_of_secluded hp b' limits fuel name hargs' hdomestic', hglobals, hworld]

/-- A function that clears a list while it walks it, with another walk of the list in a global. -/
def clearingText : String :=
  "var walk; func f(xs) \x7b for x in xs \x7b xs:Clear(); \x7d walk:MoveNext(); return xs:Count; \x7d"

/-- A heap with one list and an enumerator of that list. -/
def listedHeap : Heap := ⟨#[#[.int 5, .int 6]], #[.listEnumerator ⟨⟨0⟩, none⟩]⟩

theorem closed_listedHeap :
    listedHeap.Closed fun v ↦ v = .object ⟨0⟩ ∨ v = .list ⟨0⟩ ∨ v = .int 5 ∨ v = .int 6 := by
  refine ⟨fun r hr w hw ↦ ?_, fun r e hr he ↦ ?_, fun r hr ↦ ?_⟩
  · obtain rfl : r = ⟨0⟩ := by simpa using hr
    exact .inr (.inr (by simpa [listedHeap, Heap.items] using hw))
  · obtain rfl : r = ⟨0⟩ := by simpa using hr
    obtain rfl : e = ⟨⟨0⟩, none⟩ := by simpa [listedHeap, Heap.object?] using he.symm
    exact .inr (.inl rfl)
  · obtain rfl : r = ⟨0⟩ := by simpa using hr
    rfl

/-- The machine that has these, with the enumerator in the global, over a host. -/
def listedMachine (host : σ) : Machine σ :=
  .fresh ⟨⟨[("walk", some (.object ⟨0⟩))]⟩, ⟨listedHeap, #[]⟩, host⟩

set_option maxRecDepth 4000 in
/-- Without a host and over a registry, the list is cleared alike, and has no elements then. -/
theorem call_secluded_clearing : ∃ c, compile clearingText = .ok c ∧
    let args : List Value := [.list ⟨0⟩]
    let m : Machine Unit := listedMachine ()
    let m' : Machine Registry := listedMachine ⟨[.named "C"]⟩
    (call ⟨c.program, .none, .standard⟩ 40 m "f" args).map (·.1.mapError Report.fault) =
        some (.ok (.int 0)) ∧
      (call ⟨c.program, .none, .standard⟩ 40 m "f" args).map Outcome.seen =
        (call ⟨c.program, Registry.bridge, .standard⟩ 40 m' "f" args).map Outcome.seen ∧
      Unasking c.program .none .standard 40 m "f" args ∧
      Unasking c.program Registry.bridge .standard 40 m' "f" args := by
  obtain ⟨c, hc, hcode, hresult⟩ : ∃ c, compile clearingText = .ok c ∧
      (c.program.code.all fun i ↦ decide (i.op ∉ Operation.asking)) = true ∧
      (call ⟨c.program, .none, .standard⟩ 40 (listedMachine ()) "f" [.list ⟨0⟩]).map
        (·.1.mapError Report.fault) = some (.ok (.int 0)) :=
    ⟨_, by cbv, by cbv, by cbv⟩
  have hasks : ∀ i ∈ c.program.code, i.op ∉ Operation.asking := fun i hi ↦
    of_decide_eq_true (Array.all_eq_true'.mp hcode i hi)
  have hargs : ∀ v ∈ [Value.list ⟨0⟩], listedHeap.Domestic v :=
    List.forall_mem_singleton.mpr (Heap.domestic_of_closed closed_listedHeap (.inr (.inl rfl)))
  have hglobals : ∀ name v, (listedMachine ()).store.globals.get? name = some v →
      listedHeap.Domestic v := by
    intro name v hv
    obtain rfl : .object ⟨0⟩ = v := by
      rw [Globals.get?, listedMachine, Machine.fresh, List.lookup_cons] at hv
      split at hv
      · exact Option.some.inj hv
      · cases hv
    exact Heap.domestic_of_closed closed_listedHeap (.inl rfl)
  exact ⟨c, hc, hresult, call_secluded hc hasks .none Registry.bridge .standard 40 "f" hargs hglobals
    rfl rfl⟩

end StackScript
