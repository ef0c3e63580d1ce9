import ApiChronicle.Api
import ApiChronicle.Shape.Written

/-! # ApiChronicle.Api.Written

How queries and whole APIs are **written in JSON documents**. Members that a query
does not have are left out.
-/

namespace ApiChronicle

namespace PathParameter

def toJson (p : PathParameter) : Json :=
  .object
    [("key", .string p.key), ("type", p.type.toJson), ("name", p.name.toJson),
     ("description", .string p.description)]

end PathParameter

namespace QueryParameter

def toJson (p : QueryParameter) : Json :=
  .object
    [("key", .string p.key), ("type", p.type.toJson), ("name", p.name.toJson),
     ("description", .string p.description), ("is_optional", .bool p.isOptional)]

end QueryParameter

namespace IndexDetails

/-- The details of an index query. -/
def toJson (d : IndexDetails) : Json :=
  .object [("query_type", d.query.toJson), ("id_type", d.idType.toJson)]

end IndexDetails

namespace ResolvedQuery

/-- A query at one version. -/
def toJson (q : ResolvedQuery) : Json :=
  let r := q.request
  .object (Json.presentMembers
    [("path", some (.string r.path)), ("endpoint", some (.string r.endpoint)),
     ("summary", some (.string r.summary)),
     ("path_parameters", some (r.pathParameters.toJson PathParameter.toJson)),
     ("query_parameters", some (r.queryParameters.toJson QueryParameter.toJson)),
     ("query_suffix", r.suffix.map .string), ("cache_seconds", r.cacheSeconds.map .nat),
     ("details", r.details.map IndexDetails.toJson),
     ("security", some (.array (r.security.map TokenScope.toJson))),
     ("is_localized", some (.bool r.isLocalized)), ("schema", some q.schema.toJson)])

end ResolvedQuery

namespace Api

/-- An API at one version. -/
def toJson (api : Api) : Json :=
  .object
    [("schema_version", api.version.toJson),
     ("supported_languages", .array (api.languages.map Language.toJson)),
     ("supported_queries", .array (api.queries.map ResolvedQuery.toJson)),
     ("supported_types",
      .object (api.types.entries.map fun e => (e.1.text, Shape.toJson e.2)))]

end Api

end ApiChronicle
