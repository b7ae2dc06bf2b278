import Blogd.Http.Handler

/-! # Runs of the server

Any number of clients connect and are served in any order. Between two calls of the handler the
clock, the files and the content directory may change. A fault ends the run.
-/

namespace Blogd

structure System where
  server : Server
  clients : Nat → Client
  log : List Event

/-- What happens next: a connection is accepted in a slot, a socket is readable, or the
surroundings of the server change. -/
inductive Step
  | connect (slot : Nat)
  | readable (slot : Nat) (garbage : Garbage) (input : SocketRead)
  | surroundings (unixtime mstime : Nat) (files : Bytes → Option OpenFile)
      (contentDir : ContentDir)

namespace System

/-- No client is connected. -/
def start (server : Server) : System :=
  ⟨server, fun _ => { createClient server.unixtime with freed := true }, []⟩

/-- The handler's view of a slot. -/
def view (s : System) (slot : Nat) : World := ⟨s.server, s.clients slot, s.log⟩

/-- What the handler leaves in a slot. -/
def put (s : System) (slot : Nat) (w : World) : System :=
  ⟨w.server, fun i => if i = slot then w.client else s.clients i, w.log⟩

end System

/-- One step of the server. A client that was freed is not served again. -/
def systemStep (env : Env) : Step → EStateM Fault System PUnit
  | .connect slot =>
      modify fun s => s.put slot { s.view slot with client := createClient s.server.unixtime }
  | .surroundings unixtime mstime files contentDir =>
      modify fun s => { s with
        server := { s.server with
          unixtime := unixtime
          mstime := mstime
          files := files
          contentDir := contentDir } }
  | .readable slot garbage input => do
      let s ← get
      if (s.clients slot).freed then return
      match processHttpRequestFromClient env garbage input (s.view slot) with
      | .ok _ w => set (s.put slot w)
      | .error e w => do
          set (s.put slot w)
          throw e

theorem systemStep_readable (env : Env) (slot : Nat) (garbage : Garbage) (input : SocketRead)
    (s : System) :
    systemStep env (.readable slot garbage input) s =
      if (s.clients slot).freed then .ok ⟨⟩ s
      else
        match processHttpRequestFromClient env garbage input (s.view slot) with
        | .ok _ w => .ok ⟨⟩ (s.put slot w)
        | .error e w => .error e (s.put slot w) := by
  simp only [systemStep, bind_apply, get_apply]
  cases (s.clients slot).freed with
  | true => rfl
  | false => cases processHttpRequestFromClient env garbage input (s.view slot) <;> rfl

/-- A run from a server without clients. -/
def systemRun (env : Env) (server : Server) (steps : List Step) :
    EStateM.Result Fault System PUnit :=
  runAll (systemStep env) steps (System.start server)

end Blogd
