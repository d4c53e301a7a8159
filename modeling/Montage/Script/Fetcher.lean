import Montage.Failure

/-!
# Data sources

What a preset function can ask the outside for: a url and a body go in, a value or a failure comes
out. A source answers the same request in the same way every time.
-/

namespace Montage

/-- A data source. -/
abbrev Fetcher := String → Json → Outcome Json

namespace Fetcher

/-- A request that a preset function makes. -/
structure Request where
  url : String
  body : Json

/-- No data source: every request fails. -/
def absent : Fetcher := fun url _ => .error ⟨.fetch, "no fetcher configured for '" ++ url ++ "'"⟩

/-- Stored responses by url; the body does not matter. -/
def canned (responses : Fields) : Fetcher := fun url _ =>
  match Fields.get? responses url with
  | some response => .ok response
  | none => .error ⟨.fetch, "no response registered for '" ++ url ++ "'"⟩

end Fetcher

end Montage
