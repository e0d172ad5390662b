import ProjectsApi.Api.Routes

/-!
# A client that pages through its projects

`walk` calls `list_projects` without a token, then passes back each `nextToken`
until it is null or the given page sizes are used up.
-/

namespace ProjectsApi

open Foundation

/-- What a walk has received: its pages in order, and the token it stopped at, which
is null exactly when it reached the end of the listing. -/
structure Walk where
  pages : List (List Project)
  nextToken : Option String
  deriving DecidableEq

namespace Walk

/-- All items of the walk, in order. -/
def items (w : Walk) : List Project := w.pages.flatten

/-- The walk with a page before it. -/
def after (w : Walk) (page : List Project) : Walk :=
  { w with pages := page :: w.pages }

@[simp] theorem items_after (w : Walk) (page : List Project) :
    (w.after page).items = page ++ w.items := rfl

end Walk

/-- Continue a walk from a token. -/
def walkFrom [DatetimeParser] (ownerId : String) :
    (limits : List Nat) → (nextToken : Option String) → Action (Except Exn Walk)
  | [], nextToken => pure (.ok { pages := [], nextToken := nextToken })
  | limit :: limits, nextToken => do
      match ← listProjects ownerId limit nextToken with
      | .error exn => return .error exn
      | .ok { body := .page items none, .. } =>
          return .ok { pages := [items], nextToken := none }
      | .ok { body := .page items (some token), .. } =>
          return (← walkFrom ownerId limits (some token)).map fun w => w.after items
      | .ok _ => return .error (.valueError "unexpected response")

/-- The walk from the first page on. -/
def walk [DatetimeParser] (ownerId : String) (limits : List Nat) : Action (Except Exn Walk) :=
  walkFrom ownerId limits none

end ProjectsApi
