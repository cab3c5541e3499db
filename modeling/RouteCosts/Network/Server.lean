import RouteCosts.Dialogue.Service
import RouteCosts.Session.Conversation

/-!
# Servers

Every connection to a server is a conversation of its own. All of them ask the same planner, one
request at a time.
-/

namespace RouteCosts.Server

/-- The handler that answers requests on data files. -/
def handler (now : Int64) (files : DataFiles) : Handler FilePlanner :=
  fun planner request => Service.answer now files planner request

/-- Serve a connection over which some bytes come and no more: the bytes that are answered. -/
def converse (now : Int64) (files : DataFiles) (planner : FilePlanner) (bytes : List UInt8) :
    List UInt8 × FilePlanner :=
  let session := Session.new (.new Kind.maxLength [.data bytes] []) none
  let (_, session, planner) := session.serve (handler now files) planner
  (session.line.written, planner)

/-- Serve one connection after the other. -/
def converseAll (now : Int64) (files : DataFiles) (planner : FilePlanner) :
    List (List UInt8) → List (List UInt8)
  | [] => []
  | bytes :: rest =>
    let (answer, planner) := converse now files planner bytes
    answer :: converseAll now files planner rest

end RouteCosts.Server
