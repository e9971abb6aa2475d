import NetworkLayers.Application.Transfer
import NetworkLayers.Transport.Connection

/-!
# File transfer over two service points (application_layer.c)

The programs of `Application.Transfer`, each with the service point of its host instead of a stream. A call of `send_point` returns
when its copy is where `send_thread` takes it, and a call of `recv_point` at once, with what there is. The threads of both hosts and
everything below them go on meanwhile.
-/

namespace NetworkLayers

/-- The two points with all that is below them, and the program of each side. -/
structure Exchange where
  connection : Connection
  peer : Side → Peer

/-- What can happen next: a program calls `send_point` or `recv_point`, the `send_point` it is in returns, or anything that is no call
at one of the points. -/
inductive ExchangeAction where
  | call (x : Side)
  | sent (x : Side)
  | rest (a : ConnectionAction)
  deriving DecidableEq, Repr

/-- The step is a call of an application at one of the points, or the rest of one. -/
def ConnectionAction.IsCall : ConnectionAction → Prop
  | .point _ (.connectPoint ..) | .point _ .closeConn | .point _ (.sendPoint _) | .point _ (.sendPut _)
  | .point _ (.recvPoint _) => True
  | _ => False

instance ConnectionAction.IsCall.decidable : ∀ a, Decidable (ConnectionAction.IsCall a)
  | .point _ (.connectPoint ..) | .point _ .closeConn | .point _ (.sendPoint _) | .point _ (.sendPut _)
  | .point _ (.recvPoint _) => inferInstanceAs (Decidable True)
  | .point _ .sendThread | .point _ (.segSendThread _) | .point _ (.recvThread ..) | .internalrecv _ | .recvThread ..
  | .syncThread .. | .below _ => inferInstanceAs (Decidable False)

/-- A program that is in no call makes its next one. A `send_point` outside a connection returns 0. -/
def Exchange.call (t : Topology) (e : Ends) (s : Exchange) (x : Side) : Option Exchange :=
  if (s.connection.point x).waiting ≠ [] then none
  else
    match (s.peer x).call with
    | .sendIps rest =>
      (s.connection.step t e (.point x (.sendPoint rest))).map fun connection =>
        if (s.connection.point x).sp.flagCon = .comConexao then { s with connection := connection }
        else { connection := connection, peer := Function.update s.peer x ((s.peer x).sendIps rest 0) }
    | .recvIps r =>
      (s.connection.step t e (.point x (.recvPoint r.buflen))).map fun connection =>
        { connection := connection
          peer := Function.update s.peer x ((s.peer x).recvIps r (recvSeg (s.connection.point x).sp.segs r.buflen).2) }
    | .returned | .fault => none

/-- The `send_point` a program is in returns the size of its copy. -/
def Exchange.sent (t : Topology) (e : Ends) (s : Exchange) (x : Side) : Option Exchange :=
  match (s.peer x).call, (s.connection.point x).waiting with
  | .sendIps rest, buf :: _ =>
    (s.connection.step t e (.point x (.sendPut 0))).map fun connection =>
      { connection := connection, peer := Function.update s.peer x ((s.peer x).sendIps rest buf.length) }
  | _, _ => none

/-- One step. -/
def Exchange.step (t : Topology) (e : Ends) (s : Exchange) : ExchangeAction → Option Exchange
  | .call x => s.call t e x
  | .sent x => s.sent t e x
  | .rest a => if a.IsCall then none else (s.connection.step t e a).map fun connection => { s with connection := connection }

/-- `download` is called on one side and `upload` on the other. -/
def Exchange.start (connection : Connection) (fileName : List Byte) (canCreate : Bool) (files : List Byte → Option (List Byte))
    (buf : Side → Buffer) : Exchange where
  connection := connection
  peer := (Transfer.start fileName canCreate files buf).peer

/-- The file `download` has written, once it has created it. -/
def Exchange.downloaded (s : Exchange) : Option (List Byte) :=
  match (s.peer .a).program with
  | .download d => d.file
  | .upload _ => none

end NetworkLayers
