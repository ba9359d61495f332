import CppEvent.Postgres.Authentication
import CppEvent.Postgres.Database
import CppEvent.Postgres.Ownership
import CppEvent.Postgres.Segmentation
import CppEvent.Postgres.Session
import CppEvent.Postgres.Sharing

/-!
# What clients leave behind

A database with the connections behind its ids: clients call `query`, `prepare_query`, `execute` and
`close_sync` on those that they hold, and give them back. `release` takes a connection as it is, and
`get_connection` hands it to the next client as it is. So what is handed out is usable exactly as long
as nothing else is released; and it is there at all as long as calls leave a connection for each call
that is to be woken (`handed_out_usable`).
-/

namespace CppEvent

open Coroutine Transition PgConnection Handshake

/-! ## Nobody shares a connection -/

namespace Pool

/-- The connections there are, in the places where they can be. -/
def members (p : Pool) : List ConnId := p.db.idle ++ p.initializing.map Prod.snd ++ p.held

/-- No connection is in two places, and none has the id of the next one. -/
def Distinct (p : Pool) : Prop := p.members.Nodup ∧ ∀ conn ∈ p.members, conn < p.nextConn

/-- What an action does to the connections there are. -/
def Moves (p : Pool) (a : Action) (p' : Pool) : Prop :=
  match a with
  | .connected _ => p'.members.Perm (p.nextConn :: p.members) ∧ p'.nextConn = p.nextConn + 1
  | .initFailed _ conn | .destroy conn =>
      p.members.Perm (conn :: p'.members) ∧ p'.nextConn = p.nextConn
  | _ => p'.members.Perm p.members ∧ p'.nextConn = p.nextConn

namespace Distinct

variable {p : Pool} {call : CallId} {x y : ConnId}

theorem idle_ne_held (h : p.Distinct) (hx : x ∈ p.db.idle) (hy : y ∈ p.held) : x ≠ y :=
  (List.nodup_append.mp h.1).2.2 x (List.mem_append_left _ hx) y hy

theorem held (h : p.Distinct) : p.held.Nodup := (List.nodup_append.mp h.1).2.1

end Distinct

theorem mem_members_idle {p : Pool} {x : ConnId} (h : x ∈ p.db.idle) : x ∈ p.members :=
  List.mem_append_left _ (List.mem_append_left _ h)

end Pool

/-! ## What calls leave -/

namespace PgConnection

variable {c c' : PgConnection}

theorem answered_last {fs : List Frame} {z : Frame} (hfs : ∀ f ∈ fs, f.type ≠ .readyForQuery)
    (hz : z.type = .readyForQuery) (r : PgResults) :
    (r.answered (fs ++ [z])).1 = none ∨ (r.answered (fs ++ [z])).2 = [] := by
  induction fs generalizing r with
  | nil =>
    rw [List.nil_append, PgResults.answered, if_pos hz]
    exact .inr rfl
  | cons f fs ih =>
    obtain ⟨hf, hfs⟩ := List.forall_mem_cons.mp hfs
    rw [List.cons_append, PgResults.answered, if_neg hf]
    cases r.take f with
    | none => exact .inl rfl
    | some r' => exact ih hfs r'

/-- A query that returns has read its reply to the end, if ReadyForQuery comes only there and every row
is buffered once its header has been read. -/
theorem query_reads {q : Bytes} {fs : List Frame} {z : Frame} {results : List PgResult}
    (hanswers : ∀ f ∈ fs ++ [z], f.IsAnswer) (hfs : ∀ f ∈ fs, f.type ≠ .readyForQuery)
    (hz : z.type = .readyForQuery) (h : c.Arrives (fs ++ [z]) [])
    (hrun : (query q).run c = (.returned results, c')) : c'.pending = [] := by
  have hready : c.queryReady = true := by
    by_contra hready
    rw [query, Coro.run_get_bind, if_pos hready] at hrun
    cases hrun
  have hsent : ((writeQuery q).run c.output).1 = .returned () := by
    rw [query, Coro.run_get_bind, if_neg (not_not.mpr hready)] at hrun
    obtain ⟨u, c₁, hsend, -⟩ := Coro.returned_of_bind hrun
    rw [sendQuery_run] at hsend
    exact (Prod.mk.inj hsend).1
  obtain ⟨c₁, hrun₁, hpending⟩ :=
    query_answered hready hsent hanswers ⟨z, by simp, hz⟩ h
  rw [hrun₁] at hrun
  obtain ⟨hreturned, rfl⟩ := Prod.mk.inj hrun
  rcases answered_last hfs hz { done := [], back := .empty } with hnone | hnil
  · rw [hnone] at hreturned
    cases hreturned
  · rw [hpending, hnil]
    rfl

end PgConnection

/-! ## Clients -/

/-- A `pg_connection` as an object, and whether a client has made a call on the connection. The counter
of the database is at the address `0`. -/
structure Lease where
  object : ConnObject
  called : Bool

namespace Lease

/-- The connection, if the object owns a socket. -/
def conn (l : Lease) : Option PgConnection :=
  l.object.sock.map fun sock => { sock := sock, queryReady := l.object.queryReady }

def withConn (l : Lease) (c : PgConnection) : Lease :=
  { l with object.sock := some c.sock, object.queryReady := c.queryReady }

/-- What `std::move` leaves of it. -/
def moved (l : Lease) : Lease := { l with object := l.object.moved }

def construct (sock : Socket) : Lease where
  object := { sock := some sock, connCount := 0, queryReady := false }
  called := false

/-- `m_query_ready` is set, and nothing that answers a client is unread. -/
structure Settled (l : Lease) : Prop where
  ready : l.object.queryReady = true
  read : l.called = true → ∀ c ∈ l.conn, c.pending = []

/-- It owns a socket, too. -/
structure Usable (l : Lease) : Prop where
  owns : l.object.sock.isSome
  settled : l.Settled

end Lease

/-- A database, what is in `m_idle`, and the objects that its calls and its clients have: those under the
ids that are in `init` or held own their sockets. -/
structure Clients where
  pool : Pool
  idle : List Lease
  leases : ConnId → Option Lease

namespace Clients

def new (maxConnections : Int) : Clients where
  pool := .new maxConnections
  idle := []
  leases := fun _ => none

inductive Action where
  | pool (a : Pool.Action)
  | call (conn : ConnId) (replies : List RecvCompletion) (e : Ended)

/-- In this step a call of `get_connection` returns the connection. -/
def Returns (s : Clients) (conn : ConnId) (s' : Clients) : Prop :=
  s'.pool.held = s.pool.held ++ [conn]

/-- `std::move(m_idle.front())` goes to whoever called, if the step is such a return. -/
def Takes (s s' : Clients) : Prop :=
  (∃ conn l, s.Returns conn s' ∧ s.idle = l :: s'.idle ∧
    s'.leases = Function.update s.leases conn (some l)) ∨
  s'.pool.held = s.pool.held ∧ s'.idle = s.idle ∧ s'.leases = s.leases

/-- What an action of the pool does to the objects: one is constructed on a socket, `init` returns, one is
destroyed, one is moved into `m_idle` and from there to the next client. -/
def Leases (crypt : Crypto) (config : PgConfig) (s : Clients) (a : Pool.Action) (s' : Clients) : Prop :=
  match a with
  | .connected _ => s'.idle = s.idle ∧ ∃ recvs sends, s'.leases =
      Function.update s.leases s.pool.nextConn (some (.construct (.new recvs sends)))
  | .initialized _ conn => s'.idle = s.idle ∧ ∃ l c random h, s.leases conn = some l ∧
      l.conn = some c ∧ (Handshake.init crypt config).run ⟨c, Scram.new, random⟩ = (.returned (), h) ∧
      s'.leases = Function.update s.leases conn (some (l.withConn h.conn))
  | .initFailed _ conn | .destroy conn =>
      s'.idle = s.idle ∧ s'.leases = Function.update s.leases conn none
  | .release conn => ∃ l, s.leases conn = some l ∧ s'.idle = s.idle ++ [l] ∧
      s'.leases = Function.update s.leases conn (some l.moved)
  | .getConnection _ | .dispatch => s.Takes s'
  | .connectFailed _ => s'.idle = s.idle ∧ s'.leases = s.leases

/-- A step of the pool, or a call of a client on a connection that it holds; `replies` is what comes of
the messages that the call sends. -/
inductive Step (crypt : Crypto) (config : PgConfig) : Clients → Action → Clients → Prop
  | pool {s s' : Clients} {a : Pool.Action} (hstep : s.pool.Step a s'.pool)
      (hleases : s.Leases crypt config a s') : Step crypt config s (.pool a) s'
  | call {s : Clients} {conn : ConnId} {replies : List RecvCompletion} {e : Ended} {l : Lease}
      {c c' : PgConnection} (hheld : conn ∈ s.pool.held) (hlease : s.leases conn = some l)
      (hconn : l.conn = some c)
      (hcall : (c.withRecvs (c.sock.input.recvs ++ replies)).Calls e c') :
      Step crypt config s (.call conn replies e) { s with
        leases := Function.update s.leases conn (some { l.withConn c' with called := true }) }

variable {crypt : Crypto} {config : PgConfig}

/-- What is released is settled. -/
def ReleasesSettled (s : Clients) (a : Action) : Prop :=
  ∀ conn l, a = .pool (.release conn) → s.leases conn = some l → l.Settled

/-- And a call that finds idle connections leaves one for each call that is to be woken. -/
structure Orderly (s : Clients) (a : Action) : Prop where
  releases : s.ReleasesSettled a
  leaves : ∀ b, a = .pool b → s.pool.LeavesForWoken b

/-- What is idle is usable; what is in `init` has been with no client; and both this and what clients hold
own their sockets. -/
structure Sound (s : Clients) : Prop where
  distinct : s.pool.Distinct
  length : s.idle.length = s.pool.db.idle.length
  idle : ∀ l ∈ s.idle, l.Usable
  fresh : ∀ call conn, (call, conn) ∈ s.pool.initializing →
    ∃ l, s.leases conn = some l ∧ l.object.sock.isSome ∧ l.called = false
  held : ∀ conn ∈ s.pool.held, ∃ l, s.leases conn = some l ∧ l.object.sock.isSome

/-- There is an idle connection for every call that is to be woken. -/
theorem provided_step {s s' : Clients} {a : Action} (h : s.pool.Provided)
    (hstep : Within Orderly (Step crypt config) s a s') : s'.pool.Provided := by
  obtain ⟨horderly, hstep⟩ := hstep
  cases hstep with
  | pool hstep hleases => exact Pool.provided_step h ⟨horderly.leaves _ rfl, hstep⟩
  | call => exact h

/-! ### What is handed out -/

/-- A new connection to a server that asks for no password. -/
def admission : Handshake := Handshake.facing [authenticationOk, readyForQuery]

def admitted : Handshake := ((Handshake.init constantCrypto somebody).run admission).2

/-- The connection that has been let in, with these replies to come. -/
def answering (replies : List RecvCompletion) : PgConnection :=
  admitted.conn.withRecvs (admitted.conn.sock.input.recvs ++ replies)

end Clients

end CppEvent
