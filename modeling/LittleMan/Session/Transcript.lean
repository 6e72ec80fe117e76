import LittleMan.Session.Receive
import LittleMan.Session.Frame

/-! A session from its first byte to its end: the turns that the messages take, in order. A session
ends with its input, with the message that asks for it, or with a failure. -/

namespace LittleMan

namespace Session

def turn (files : FileReader) (server : Server) : Frame → Turn
  | .ended => { server }
  | .malformed why => { server, log := ["Malformed message: " ++ why.account] }
  | .tooLarge => { server, fault := some .sizeOverflow }
  | .tooDeep => { server, fault := some .tooDeep }
  | .message fields =>
    match receive files fields { server } with
    | (.ok _, t) => t
    | (.error e, t) => { t with fault := some e }

def greeting : Text := "Waiting for initialize request"

def farewell : Text := "Exiting"

def step (files : FileReader) (server : Server) (frame : Frame) : Turn × Bool :=
  let t := turn files server frame
  if t.fault.isSome then (t, false)
  else if frame = .ended ∨ t.server.exited = true then ({ t with log := t.log ++ [farewell] }, false)
  else (t, true)

/-- The turns of a session on the rest of its input. The log may be kept in a file that the client asks
for, so the files depend on the lines logged so far. The fuel bounds the number of turns. -/
def turns (files : List Text → FileReader) (fuel : Nat) (server : Server) (log : List Text)
    (bytes : List UInt8) : List Turn :=
  match fuel with
  | 0 => []
  | fuel + 1 =>
    let (frame, rest) := Frame.read {} bytes
    match step (files log) server frame with
    | (t, false) => [t]
    | (t, true) => t :: turns files fuel t.server (log ++ t.log) rest

/-- The turns of a whole session. Every turn but the last reads a byte at least. -/
def transcript (files : List Text → FileReader) (bytes : List UInt8) : List Turn :=
  match turns files (bytes.length + 1) {} [greeting] bytes with
  | [] => []
  | t :: rest => { t with log := greeting :: t.log } :: rest

def merge (ts : List Turn) : Turn where
  server := (ts.getLast?.map (·.server)).getD {}
  out := ts.flatMap (·.out)
  log := ts.flatMap (·.log)
  fault := ts.getLast?.bind (·.fault)

/-- The status with which a program ends after a session: an end that was asked for without a shutdown
is an error. -/
def status (server : Server) : Nat := if server.shutdown || !server.exited then 0 else 1

end Session

end LittleMan
