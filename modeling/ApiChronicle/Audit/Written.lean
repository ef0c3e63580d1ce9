import ApiChronicle.Audit
import ApiChronicle.Vocabulary.Written

/-! # ApiChronicle.Audit.Written

How an audit is **written in JSON documents**. Empty lists of diagnostics are left
out.
-/

namespace ApiChronicle

namespace Diagnostic

def toJson (d : Diagnostic) : Json :=
  .object (Json.presentMembers
    [("severity", some (.string d.severity.keyword)), ("code", some (.string d.finding.code)),
     ("location", some (.string d.location)),
     ("version", d.finding.version?.map Version.toJson),
     ("message", some (.string d.finding.message))])

/-- Diagnostics, if there are any. -/
def listToJson? (ds : List Diagnostic) : Option Json :=
  if ds.isEmpty then none else some (.array (ds.map toJson))

end Diagnostic

namespace EndpointAudit

/-- What was found about an endpoint. -/
def toJson (e : EndpointAudit) : Json :=
  .object (Json.presentMembers
    [("endpoint", some (.string e.endpoint)),
     ("status", some (.string (if e.isOk then "ok" else "error"))),
     ("queries", some (.nat e.queries)), ("diagnostics", Diagnostic.listToJson? e.diagnostics)])

end EndpointAudit

namespace Audit

def toJson (a : Audit) : Json :=
  .object (Json.presentMembers
    [("endpoints_checked", some (.nat a.endpoints.length)), ("passed", some (.nat a.passed)),
     ("failed", some (.nat a.failed)), ("errors", some (.nat (a.count .error))),
     ("warnings", some (.nat (a.count .warning))),
     ("results", some (.array (a.endpoints.map EndpointAudit.toJson))),
     ("declarations", Diagnostic.listToJson? a.declarations)])

end Audit

end ApiChronicle
