import Mathlib.Data.List.Basic

/-!
# The wire protocol's messages

The four message types of `proto/src/lib.rs`. Every data-bearing message carries a sequence
number; its type `ν` is a parameter. On the wire it is `UInt64`. The models of whole runs take
`Nat`, where a counter that is incremented once per message cannot wrap.
-/

namespace HerdrEternal

/-- The bytes of a buffer, a pipe or a frame. -/
abbrev Data := List UInt8

/-- First message sent by the client after the transport is established. -/
structure Hello where
  token : String
  clientName : String
  clientVersion : String
  deriving DecidableEq

/-- Server reply to a successful `Hello`. -/
structure Welcome where
  user : String
  serverVersion : String
  deriving DecidableEq

/-- Client request to start a command or resume an existing session. -/
inductive ExecRequest (ν : Type) where
  | exec (command : String) (resumable forwardAgent : Bool)
  | resume (resumeToken : String) (lastSeqSeen : ν)
  | agentChannel (resumeToken : String)
  deriving DecidableEq

/-- Messages flowing on an established exec channel, in both directions. -/
inductive ChannelMessage (ν : Type) where
  | started (resumeToken : Option String)
  | denied (reason : String)
  | stdin (seq : ν) (data : Data)
  | stdinEof (seq : ν)
  | stdout (seq : ν) (data : Data)
  | stderr (seq : ν) (data : Data)
  | exit (seq : ν) (code : Int32)
  | ack (seq : ν)
  | agentOpen (id : ν)
  | agentData (id : ν) (data : Data)
  | agentClose (id : ν)
  deriving DecidableEq

namespace ChannelMessage

variable {ν : Type}

/-- Small stdio messages are additionally sent as unreliable datagrams. -/
def worthDuplicating : ChannelMessage ν → Bool
  | .stdin _ data | .stdout _ data | .stderr _ data => data.length ≤ 512
  | _ => false

end ChannelMessage

end HerdrEternal
