import AmxJit.Lib.Runs
import AmxJit.Amx.Ref
import Mathlib.Logic.Function.Basic

/-!
# The plugin: handlers, compilation and the hooked `amx_Exec`

`Step P` is one step of a process in which `amx_Exec` is replaced by `amx_Exec_JIT`.

* `World`        the AMX instances, the map `handlers_`, and the calls that are on their way;
* `amxExecJit`   `amx_Exec_JIT` up to the point where an engine or the compilation takes over;
* `Frame`        where a call is: in `Compile`, in front of an engine, in the engine, or behind it;
* `Event`        what a step does; calls are numbered in the order in which they begin.

While an engine runs, and when no call is on its way, the host may do anything to the instances, call
`amx_Exec` and unload instances: this is how calls nest.  `Plugin` has the code that is not the
plugin's own: what the AMX functions find, what the compiler returns, the errors with which
compiled code returns, and the interpreter.
-/

namespace AmxJit
open X86 Trans

inductive HandlerState where
  | init | compile | compileFailed | compileSucceded
  deriving DecidableEq

structure JITHandler (β : Type) where
  state : HandlerState
  code : Option β

inductive Engine (β : Type) where
  | compiled (code : β)
  | interpreter

/-- what `JITHandler::Exec` does: compile first, or leave the call to an engine -/
inductive Action (β : Type) where
  | compile
  | run (e : Engine β)

/-- The `switch` of `JITHandler::Exec`; for `AMX_ERR_INIT_JIT` its caller runs the interpreter.  It is
undefined for a null pointer `code_`. -/
def JITHandler.exec {β : Type} (h : JITHandler β) : Option (Action β) :=
  match h.state with
  | .init => some .compile
  | .compileSucceded => h.code.map fun b => .run (.compiled b)
  | .compile | .compileFailed => some (.run .interpreter)

/-- `delete handler`: the code buffer that is deleted -/
def JITHandler.deleted {β : Type} (h : JITHandler β) : Option β :=
  if h.state = .compileSucceded then h.code else none

structure Plugin (β : Type) where
  linux : Bool
  /-- `amx_FindPublic` -/
  findPublic : AmxRef → String → Option Word
  /-- `amx_FindPubVar` and `amx_GetAddr` -/
  findPubVar : AmxRef → String → Option Word
  /-- `Compiler::Compile`; `none` is a null pointer -/
  compile : AmxRef → Option β → Prop
  /-- the errors with which compiled code returns -/
  entryPoint : β → Word → Word → Prop
  /-- the interpreter does not run the function: an early return -/
  refuses : AmxRef → Prop
  /-- the interpreter has run the function -/
  runs : AmxRef → AmxRef → Prop

/-- where `Compile` is: in front of `OnJITCompile`, in it, behind it; with a null pointer from the
compiler; in `OnJITError`; and at the end with a null pointer -/
inductive Phase where
  | begin | asking | answered (retval : Word) | erring | reporting | failed

/-- a call of `amx_Exec`: its number, its AMX and `index` -/
inductive Frame (α β : Type) where
  | compiling (n : Nat) (a : α) (index : Word) (p : Phase)
  | entering (n : Nat) (a : α) (index : Word) (e : Engine β)
  | running (n : Nat) (a : α) (index : Word) (e : Engine β) (s : AmxRef)
  | returning (n : Nat) (a : α) (index : Word) (error : Word)

namespace Frame
variable {α β : Type}

def amx : Frame α β → α
  | compiling _ a _ _ | entering _ a _ _ | running _ a _ _ _ | returning _ a _ _ => a

def number : Frame α β → Nat
  | compiling n _ _ _ | entering n _ _ _ | running n _ _ _ _ | returning n _ _ _ => n

/-- An engine runs. -/
def IsRunning : Frame α β → Prop
  | running _ _ _ _ _ => True
  | _ => False

end Frame

inductive Event (α β : Type) where
  | silent
  /-- a call, in the state `s` of its AMX -/
  | call (n : Nat) (a : α) (index : Word) (s : AmxRef)
  /-- the engine is entered in the state `s` -/
  | start (n : Nat) (a : α) (e : Engine β) (s : AmxRef)
  /-- the compiled code returns an error -/
  | left (n : Nat) (a : α) (error : Word)
  /-- the interpreter has run the function, for the compilation in another call or for the host -/
  | ran (n : Nat) (a : α) (caller : Option Nat)
  | ret (n : Nat) (a : α) (error : Word)
  | compile (a : α) (code : Option β)
  | fail (a : α)
  /-- `AmxUnload`, with the code buffer that is deleted -/
  | unload (a : α) (code : Option β)

def Event.amx {α β : Type} : Event α β → Option α
  | silent => none
  | call _ a _ _ | start _ a _ _ | left _ a _ | ran _ a _ | ret _ a _ | compile a _ | fail a
  | unload a _ => some a

structure World (α β : Type) where
  amx : α → AmxRef
  handlers : α → Option (JITHandler β)
  stack : List (Frame α β)
  calls : Nat

namespace Plugin
variable {β : Type} (P : Plugin β)

/-- the AMX is being browsed: `amx_Exec_JIT` returns at once -/
def browses (s : AmxRef) : Bool := P.linux && (s.amx.flags &&& AMX_FLAG_BROWSE == AMX_FLAG_BROWSE)

/-- the constructor of `JITHandler` sets the public variable `__JIT` -/
def construct (s : AmxRef) : AmxRef :=
  match P.findPubVar s "__JIT" with
  | some v => { s with mem := s.mem.write32 v 1 }
  | none => s

end Plugin

namespace World
variable {α β : Type} [DecidableEq α] (P : Plugin β) (c : World α β)

def setHandler (a : α) (h : Option (JITHandler β)) : World α β :=
  { c with handlers := Function.update c.handlers a h }

def createHandler (a : α) : World α β × JITHandler β :=
  let h : JITHandler β := ⟨.init, none⟩
  ({ c.setHandler a (some h) with amx := Function.update c.amx a (P.construct (c.amx a)) }, h)

def getHandler (a : α) : World α β × JITHandler β :=
  match c.handlers a with
  | some h => (c, h)
  | none => c.createHandler P a

def destroyHandler (a : α) : World α β := c.setHandler a none

/-- a new call -/
def push (f : Frame α β) : World α β := { c with stack := f :: c.stack, calls := c.calls + 1 }

def amxExecJit (a : α) (index : Word) : Option (World α β) :=
  if P.browses (c.amx a) then some (c.push (.returning c.calls a index AMX_ERR_NONE))
  else
    let r := c.getHandler P a
    r.2.exec.map fun
      | .compile =>
        (r.1.setHandler a (some { r.2 with state := .compile })).push
          (.compiling c.calls a index .begin)
      | .run e => r.1.push (.entering c.calls a index e)

/-- the frame behind the return of `JITHandler::Exec` with an error -/
def afterExec (n : Nat) (a : α) (index error : Word) : Frame α β :=
  if error = AMX_ERR_INIT_JIT then .entering n a index .interpreter else .returning n a index error

/-- the call whose compilation has made the call above `fs` -/
def caller : List (Frame α β) → Option Nat
  | .compiling n _ _ _ :: _ => some n
  | _ => none

/-- the calls that are left when a call has returned, with `retval` for a callback of `Compile` -/
def resume (retval : Word) : List (Frame α β) → List (Frame α β)
  | .compiling n a index .asking :: fs => .compiling n a index (.answered retval) :: fs
  | .compiling n a index .reporting :: fs => .compiling n a index .failed :: fs
  | fs => fs

/-- The host is in control. -/
def HostTurn : Prop := ∀ f fs, c.stack = f :: fs → f.IsRunning

inductive Step : World α β → Event α β → World α β → Prop where
  | work {c : World α β} (amx : α → AmxRef) : c.HostTurn → Step c .silent { c with amx := amx }
  | call {c c' : World α β} {a : α} {index : Word} : c.HostTurn →
      c.amxExecJit P a index = some c' → Step c (.call c.calls a index (c.amx a)) c'
  | unload {c : World α β} (a : α) : c.HostTurn → (∀ f ∈ c.stack, f.amx ≠ a) →
      Step c (.unload a ((c.handlers a).bind JITHandler.deleted)) (c.destroyHandler a)
  -- OnJITCompile
  | ask {c c' : World α β} {n : Nat} {a : α} {index i : Word} {fs : List (Frame α β)} :
      c.stack = .compiling n a index .begin :: fs →
      P.findPublic (c.amx a) "OnJITCompile" = some i →
      amxExecJit P { c with stack := .compiling n a index .asking :: fs } a i = some c' →
      Step c (.call c.calls a i (c.amx a)) c'
  | accept {c : World α β} {n : Nat} {a : α} {index : Word} {fs : List (Frame α β)} :
      c.stack = .compiling n a index .begin :: fs →
      P.findPublic (c.amx a) "OnJITCompile" = none →
      Step c .silent { c with stack := .compiling n a index (.answered 1) :: fs }
  | disable {c : World α β} {n : Nat} {a : α} {index : Word} {fs : List (Frame α β)} :
      c.stack = .compiling n a index (.answered 0) :: fs →
      Step c .silent { c with stack := .compiling n a index .failed :: fs }
  -- Compile, up to a new code buffer
  | compile {c : World α β} {n : Nat} {a : α} {index r : Word} {fs : List (Frame α β)} {b : β} :
      c.stack = .compiling n a index (.answered r) :: fs → r ≠ 0 → P.compile (c.amx a) (some b) →
      (∀ a' h, c.handlers a' = some h → h.code ≠ some b) →
      Step c (.compile a (some b))
        { c.setHandler a (some ⟨.compileSucceded, some b⟩) with
          stack := .entering n a index (.compiled b) :: fs }
  | reject {c : World α β} {n : Nat} {a : α} {index r : Word} {fs : List (Frame α β)} :
      c.stack = .compiling n a index (.answered r) :: fs → r ≠ 0 → P.compile (c.amx a) none →
      Step c (.compile a none) { c with stack := .compiling n a index .erring :: fs }
  -- OnJITError
  | report {c c' : World α β} {n : Nat} {a : α} {index i : Word} {fs : List (Frame α β)} :
      c.stack = .compiling n a index .erring :: fs →
      P.findPublic (c.amx a) "OnJITError" = some i →
      amxExecJit P { c with stack := .compiling n a index .reporting :: fs } a i = some c' →
      Step c (.call c.calls a i (c.amx a)) c'
  | give {c : World α β} {n : Nat} {a : α} {index : Word} {fs : List (Frame α β)} :
      c.stack = .compiling n a index .erring :: fs →
      P.findPublic (c.amx a) "OnJITError" = none →
      Step c .silent { c with stack := .compiling n a index .failed :: fs }
  | fail {c : World α β} {n : Nat} {a : α} {index : Word} {fs : List (Frame α β)} :
      c.stack = .compiling n a index .failed :: fs →
      Step c (.fail a)
        { c.setHandler a (some ⟨.compileFailed, none⟩) with
          stack := .entering n a index .interpreter :: fs }
  -- the engines
  | start {c : World α β} {n : Nat} {a : α} {index : Word} {e : Engine β} {fs : List (Frame α β)} :
      c.stack = .entering n a index e :: fs →
      Step c (.start n a e (c.amx a)) { c with stack := .running n a index e (c.amx a) :: fs }
  | left {c : World α β} {n : Nat} {a : α} {index error : Word} {b : β} {s : AmxRef}
      {fs : List (Frame α β)} : c.stack = .running n a index (.compiled b) s :: fs →
      P.entryPoint b index error →
      Step c (.left n a error) { c with stack := afterExec n a index error :: fs }
  | refuse {c : World α β} {n : Nat} {a : α} {index error : Word} {s : AmxRef}
      {fs : List (Frame α β)} : c.stack = .running n a index .interpreter s :: fs → P.refuses s →
      c.amx a = s → Step c .silent { c with stack := .returning n a index error :: fs }
  | run {c : World α β} {n : Nat} {a : α} {index error : Word} {s : AmxRef}
      {fs : List (Frame α β)} : c.stack = .running n a index .interpreter s :: fs →
      P.runs s (c.amx a) →
      Step c (.ran n a (caller fs)) { c with stack := .returning n a index error :: fs }
  | ret {c : World α β} {n : Nat} {a : α} {index error : Word} (retval : Word)
      {fs : List (Frame α β)} : c.stack = .returning n a index error :: fs →
      Step c (.ret n a error) { c with stack := resume retval fs }

/-- no handler, no call -/
structure Initial : Prop where
  handlers : ∀ a, c.handlers a = none
  stack : c.stack = []

end World

end AmxJit
