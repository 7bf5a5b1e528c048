import NodeAdmission.Admission.Judge
/-!
# The desk

A desk judges records by one view of the chain and one set of parameters, and writes every decision
to the log. So do the changes of the view. Judging itself writes nothing.
-/

namespace NodeAdmission

/-! ## The log -/

/-- How much a log entry matters. -/
inductive LogLevel where
  | trace
  | debug
deriving DecidableEq

/-- The name of a level in the log. -/
def LogLevel.name : LogLevel → String
  | trace => "TRACE"
  | debug => "DEBUG"

/-- What is written to the log. -/
inductive LogEntry where
  /-- A block was appended at a height. -/
  | tipAdvanced (height : UInt32)
  /-- The chain was cut down to a number of blocks. -/
  | chainRewound (blocks : Nat)
  /-- A registration was judged. -/
  | registrationJudged (tier : Tier) (key : IdentityKey) (verdict : Verdict)
  /-- A ping was judged. -/
  | pingJudged (key : IdentityKey) (height : UInt32) (verdict : Verdict)
  /-- A number of pings were judged together. -/
  | batchJudged (valid rejected : Nat)

namespace LogEntry

/-- The level of an entry: admissions matter least. -/
def level : LogEntry → LogLevel
  | registrationJudged _ _ (.ok _) => .trace
  | pingJudged _ _ (.ok _) => .trace
  | _ => .debug

/-- The text of an entry. -/
def text : LogEntry → String
  | tipAdvanced height => s!"Chain tip advanced to height {height.toNat}"
  | chainRewound blocks => s!"Chain rewound, tip now at {blocks} blocks"
  | registrationJudged tier key (.ok _) =>
    s!"Accepted {tier.name} registration {key.describe}"
  | registrationJudged _ key (.error reason) =>
    s!"Rejected registration {key.describe}: {reason.message}"
  | pingJudged key height (.ok _) => s!"Accepted ping {key.describe} at height {height.toNat}"
  | pingJudged key height (.error reason) =>
    s!"Rejected ping {key.describe} at height {height.toNat}: {reason.message}"
  | batchJudged valid rejected =>
    s!"Batch validated {valid + rejected} pings: {valid} valid, {rejected} rejected"

/-- The line of an entry. -/
def line (e : LogEntry) : String := s!"{e.level.name} [servicenode] {e.text}"

end LogEntry

/-- What a change of a view writes to the log. -/
def View.logEntries (v : View) : ChainEvent → List LogEntry
  | .block hash => [.tipAdvanced (v.pushBlock hash).tipHeight]
  | .rewind height => [.chainRewound (v.rewindTo height).blocks.size]
  | .confirm _ => []
  | .announce _ => []

/-! ## Batches -/

/-- The verdicts on a number of pings, in order. -/
structure Batch where
  /-- The verdicts. -/
  verdicts : List Verdict

namespace Batch

/-- The number of admissions. -/
def validCount (b : Batch) : Nat := b.verdicts.countP Verdict.isAdmission

/-- The number of rejections. -/
def invalidCount (b : Batch) : Nat := b.verdicts.length - b.validCount

/-- Every verdict is an admission. -/
def allValid (b : Batch) : Bool := b.invalidCount == 0

end Batch

/-! ## The desk -/

/-- Where records are judged. -/
structure Desk where
  /-- The chain that is asked. -/
  chain : ChainAccess
  /-- What the network asks of registrations. -/
  params : StakeParams

namespace Desk

/-- Judges a record, and says so in the log. -/
def judgeRecord (d : Desk) (enforce : Bool) (n : NodeRecord) : Verdict × LogEntry :=
  let verdict := (n.judge d.chain d.params enforce).outcome
  (verdict, .registrationJudged n.registration.tier n.key verdict)

/-- Judges a ping, and says so in the log. -/
def judgePing (d : Desk) (p : Ping) : Verdict × LogEntry :=
  let verdict := (p.judge d.chain d.params).outcome
  (verdict, .pingJudged p.key p.anchor.height verdict)

/-- Judges pings, and says so in the log, at the end for all of them together. -/
def judgePings (d : Desk) (pings : List Ping) : Batch × List LogEntry :=
  let judged := pings.map d.judgePing
  let batch : Batch := { verdicts := judged.map Prod.fst }
  (batch, judged.map Prod.snd ++ [.batchJudged batch.validCount batch.invalidCount])

end Desk

end NodeAdmission
