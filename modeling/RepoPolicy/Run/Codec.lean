import RepoPolicy.Document.Json.Writer
import RepoPolicy.Event.Codec
import RepoPolicy.Run.Log

set_option autoImplicit false

/-! # Reports as documents -/

namespace RepoPolicy

open RepoPolicy.Document

def Report.fields (report : Report) : Fields :=
  [("run_id", .string report.runId), ("policy_name", .string report.policyName),
    ("repo_id", .string report.repoId), ("status", .string report.status.name),
    ("violations", .list (report.violations.map Violation.encode)),
    ("new", .list (report.new.map Violation.encode)),
    ("persistent", .list (report.persistent.map Violation.encode)),
    ("fixed", .list (report.fixed.map .string)), ("counts", report.counts.encode)]

def Report.toJson (report : Report) : String := Json.pretty (.record report.fields)

def LogLine.encode (line : LogLine) : Value :=
  .record [("level", .string line.level.name), ("text", .string line.text)]

end RepoPolicy
