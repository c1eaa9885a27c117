import MarkdownEdits.Http.Client

/-!
# Scripted servers

A server that answers the requests to its address from a script and keeps what it has seen. When the
script has run out, and for any other address, no reply comes.
-/

namespace MarkdownEdits.Http

/-- A request as a server sees it. -/
structure SeenRequest where
  method : Method
  target : String
  authorization : String
  contentType : Option String
  body : String
  deriving DecidableEq, Repr, Inhabited

structure ScriptedServer where
  /-- The address of the server, up to its host. -/
  origin : String
  replies : List Reply
  seen : List SeenRequest := []
  deriving DecidableEq, Repr, Inhabited

namespace ScriptedServer

/-- What follows the origin in an address that leads to the server. -/
def localPart? (s : ScriptedServer) (address : String) : Option String :=
  let rest := address.toList.drop s.origin.length
  if s.origin.toList.isPrefixOf address.toList then
    match rest with
    | [] => some ""
    | c :: _ => if ['/', '?', '#', '\\'].contains c then some (.ofList rest) else none
  else none

def answer (r : Request) (s : ScriptedServer) : Option Reply × ScriptedServer :=
  match s.localPart? (r.base ++ r.path) with
  | none => (none, s)
  | some rest =>
    let target := r.query.foldl (fun t p => t.addPair p.1 p.2) (Target.ofAddress rest)
    let seen : SeenRequest :=
      ⟨r.method, target.text, Text.trim r.authorization, r.contentType, r.body⟩
    let next := { s with seen := s.seen ++ [seen] }
    match s.replies with
    | [] => (none, next)
    | reply :: rest => (some reply, { next with replies := rest })

end ScriptedServer

end MarkdownEdits.Http
