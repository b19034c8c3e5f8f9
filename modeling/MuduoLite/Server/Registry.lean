import Mathlib.Data.Nat.ModEq
import MuduoLite.Server.Ownership

/-!
# The names of the connections

`connections_` is keyed by names that end in `nextConnId_`, an `int` that comes round to
the same value after `2 ^ 32` connections.  Two connections have the same name exactly if
their numbers, counted without end, are congruent modulo `2 ^ 32`: the formatting keeps
every `int` apart from every other, and the buffer of `snprintf` is never too small.

So the map is right as long as a new connection meets no open one whose number is
congruent to its own.  `Server.Step` stops before `nextConnId_` overflows; its runs are
runs of the registry in which that cannot happen (`tracks_run`).
-/

namespace MuduoLite

open Transition
open Function (update)

namespace Server

/-- What `TcpServer` knows of its connections, with what they know of themselves. -/
structure Registry where
  /-- `connections_`; a connection is given by how many were accepted before it -/
  connections : List Char → Option ℕ := fun _ => none
  nextConnId : BitVec 32 := 1
  /-- `name_` of each connection, in the order in which they were accepted -/
  names : List (List Char) := []
  /-- those that `removeConnectionInLoop` has been called for -/
  removed : Finset ℕ := ∅

namespace Registry

/-- `name_ + buf` where `snprintf` has printed `-ipPort_#nextConnId_` into `buf`. -/
def connName (server : TcpServer) (connId : BitVec 32) : List Char :=
  server.name ++ ('-' :: server.ipPort ++ '#' :: Decimal.signed connId.toInt).take 63

def newConnection (s : Registry) (server : TcpServer) : Registry where
  connections := update s.connections (connName server s.nextConnId) (some s.names.length)
  nextConnId := s.nextConnId + 1
  names := s.names ++ [connName server s.nextConnId]
  removed := s.removed

/-- `removeConnectionInLoop` for connection `c`, whose `name()` is `name`. -/
def removeConnectionInLoop (s : Registry) (c : ℕ) (name : List Char) : Registry :=
  { s with connections := update s.connections name none, removed := insert c s.removed }

inductive Label
  | newConnection
  | removeConnectionInLoop (c : ℕ)
  deriving DecidableEq, Repr

inductive Step (server : TcpServer) (s : Registry) : Label → Registry → Prop
  | newConnection : Step server s .newConnection (s.newConnection server)
  | removeConnectionInLoop {c : ℕ} {name : List Char} (hname : s.names[c]? = some name) :
      Step server s (.removeConnectionInLoop c) (s.removeConnectionInLoop c name)

/-- Accepted and not removed. -/
def IsOpen (s : Registry) (c : ℕ) : Prop := c < s.names.length ∧ c ∉ s.removed

/-- The map has the connection under its name. -/
def HasEntry (s : Registry) (c : ℕ) : Prop :=
  ∃ name, s.names[c]? = some name ∧ s.connections name = some c

/-- No open connection has a number that is congruent to the number of the new one, or
of the one to be removed. -/
def NoClash (s : Registry) : Label → Prop
  | .newConnection => ∀ c, s.IsOpen c → ¬ c ≡ s.names.length [MOD 2 ^ 32]
  | .removeConnectionInLoop c => ∀ d, s.IsOpen d → d ≡ c [MOD 2 ^ 32] → d = c

/-- The step leaves open connections their entries, and a removed one has none. -/
structure Keeps (s : Registry) (label : Label) (t : Registry) : Prop where
  kept : ∀ c, s.IsOpen c → label ≠ .removeConnectionInLoop c → t.HasEntry c
  erased : ∀ c, label = .removeConnectionInLoop c → ¬ t.HasEntry c

/-! ## Names -/

variable {server : TcpServer} {s t : Registry} {label : Label}

theorem connName_eq (server : TcpServer) (connId : BitVec 32) : connName server connId =
    server.name ++ '-' :: (server.ipPort ++ '#' :: Decimal.signed connId.toInt) := by
  have hle : -2 ^ 31 ≤ connId.toInt := connId.le_toInt
  have hlt : connId.toInt < 2 ^ 31 := BitVec.toInt_lt
  have hsigned := Decimal.length_signed_le connId.toInt
  have hdigits : (Nat.toDigits 10 connId.toInt.natAbs).length ≤ 10 :=
    (Nat.length_toDigits_le_iff (by decide) (by decide)).2 (by omega)
  rw [connName, server.take_ipPort (by omega)]

theorem connName_injective (server : TcpServer) : Function.Injective (connName server) := by
  intro i j h
  rw [connName_eq, connName_eq] at h
  have hdigits : Decimal.signed i.toInt = Decimal.signed j.toInt := by simpa using h
  exact BitVec.eq_of_toInt_eq (Decimal.signed_injective hdigits)

/-- The name of the connection that `c` others were accepted before. -/
def nameOf (server : TcpServer) (c : ℕ) : List Char := connName server (BitVec.ofNat 32 (c + 1))

theorem nameOf_eq_iff (c d : ℕ) : nameOf server c = nameOf server d ↔ c ≡ d [MOD 2 ^ 32] := by
  rw [nameOf, nameOf, (connName_injective server).eq_iff, ← BitVec.toNat_inj, BitVec.toNat_ofNat,
    BitVec.toNat_ofNat]
  exact ⟨fun h => Nat.ModEq.add_right_cancel' 1 h, fun h => Nat.ModEq.add_right 1 h⟩

/-! ## The methods -/

theorem removeConnectionInLoop_connections_self (s : Registry) (c : ℕ) (name : List Char) :
    (s.removeConnectionInLoop c name).connections name = none :=
  Function.update_self _ _ _

theorem removeConnectionInLoop_isOpen_iff (s : Registry) (c d : ℕ) (name : List Char) :
    (s.removeConnectionInLoop c name).IsOpen d ↔ s.IsOpen d ∧ d ≠ c := by
  rw [IsOpen, IsOpen, removeConnectionInLoop, Finset.mem_insert, not_or]
  tauto

/-! ## The invariant -/

/-- The names are those that the counter gives, which holds in every run. -/
structure Named (server : TcpServer) (s : Registry) : Prop where
  nextConnId : s.nextConnId = BitVec.ofNat 32 (s.names.length + 1)
  names : ∀ c name, s.names[c]? = some name → name = nameOf server c
  removed : ∀ c ∈ s.removed, c < s.names.length

/-- The map has the open connections and no other. -/
def Faithful (s : Registry) : Prop :=
  ∀ name c, s.connections name = some c ↔ s.names[c]? = some name ∧ c ∉ s.removed

theorem start_named : Named server {} where
  nextConnId := rfl
  names := fun _ _ h => nomatch h
  removed := fun c h => absurd h (Finset.notMem_empty c)

theorem start_faithful : Faithful {} := fun _ _ => ⟨nofun, nofun⟩

namespace Named

theorem newName (h : Named server s) :
    connName server s.nextConnId = nameOf server s.names.length :=
  congrArg (connName server) h.nextConnId

theorem notMem_removed (h : Named server s) : s.names.length ∉ s.removed :=
  fun hmem => (h.removed _ hmem).false

theorem getElem? (h : Named server s) {c : ℕ} (hc : c < s.names.length) :
    s.names[c]? = some (nameOf server c) := by
  have hget := List.getElem?_eq_getElem hc
  rw [hget, h.names c _ hget]

/-- Two connections with one name have congruent numbers. -/
theorem modEq (h : Named server s) {c d : ℕ} {name : List Char} (hc : s.names[c]? = some name)
    (hd : s.names[d]? = some name) : c ≡ d [MOD 2 ^ 32] :=
  (nameOf_eq_iff c d).1 ((h.names c name hc).symm.trans (h.names d name hd))

theorem newConnection_connections (h : Named server s) :
    (s.newConnection server).connections =
      update s.connections (nameOf server s.names.length) (some s.names.length) := by
  rw [newConnection, h.newName]

theorem newConnection_getElem? (h : Named server s) (c : ℕ) (name : List Char) :
    (s.newConnection server).names[c]? = some name ↔
      s.names[c]? = some name ∨ c = s.names.length ∧ name = nameOf server c := by
  rw [newConnection, h.newName]
  rcases Nat.lt_trichotomy c s.names.length with hlt | rfl | hgt
  · rw [List.getElem?_append_left hlt]
    exact ⟨.inl, fun hor => hor.elim id fun hnew => absurd hnew.1 hlt.ne⟩
  · rw [List.getElem?_concat_length, List.getElem?_eq_none le_rfl]
    simp [eq_comm]
  · have hnew : (s.names ++ [nameOf server s.names.length])[c]? = none := by
      rw [List.getElem?_eq_none_iff, List.length_append]
      exact hgt
    rw [hnew, List.getElem?_eq_none hgt.le]
    exact ⟨nofun, fun hor => hor.elim nofun fun hlast => absurd hlast.1 hgt.ne'⟩

theorem newConnection_isOpen_iff (h : Named server s) (c : ℕ) :
    (s.newConnection server).IsOpen c ↔ s.IsOpen c ∨ c = s.names.length := by
  rw [IsOpen, newConnection, List.length_append, List.length_singleton, Nat.lt_succ_iff_lt_or_eq,
    or_and_right]
  refine or_congr_right ⟨And.left, ?_⟩
  rintro rfl
  exact ⟨rfl, h.notMem_removed⟩

theorem step (h : Named server s) (hstep : Step server s label t) : Named server t := by
  cases hstep with
  | newConnection =>
      refine ⟨?_, fun c name hname => ?_, fun c hmem => ?_⟩
      · calc
          s.nextConnId + 1 = BitVec.ofNat 32 (s.names.length + 1) + 1 := by rw [h.nextConnId]
          _ = BitVec.ofNat 32 (s.names.length + 1 + 1) := (BitVec.ofNat_add _ 1).symm
          _ = BitVec.ofNat 32 ((s.newConnection server).names.length + 1) := by
            rw [newConnection, List.length_append, List.length_singleton]
      · rcases (h.newConnection_getElem? c name).1 hname with hold | ⟨-, hnew⟩
        · exact h.names c name hold
        · exact hnew
      · rw [newConnection, List.length_append, List.length_singleton]
        exact Nat.lt_succ_of_lt (h.removed c hmem)
  | @removeConnectionInLoop d name hname =>
      refine ⟨h.nextConnId, h.names, fun c hmem => ?_⟩
      rcases Finset.mem_insert.1 hmem with rfl | hold
      · exact (List.getElem?_eq_some_iff.1 hname).1
      · exact h.removed c hold

end Named

theorem Faithful.newConnection (h : Faithful s) (hnamed : Named server s)
    (hclash : NoClash s .newConnection) : Faithful (s.newConnection server) := by
  intro name c
  rw [hnamed.newConnection_getElem?]
  by_cases hname : name = nameOf server s.names.length
  · subst hname
    have hentry : (s.newConnection server).connections (nameOf server s.names.length) =
        some s.names.length := by
      rw [hnamed.newConnection_connections, Function.update_self]
    rw [hentry, Option.some.injEq]
    refine ⟨fun heq => heq ▸ ⟨.inr ⟨rfl, rfl⟩, hnamed.notMem_removed⟩, fun ⟨hor, hopen⟩ => ?_⟩
    rcases hor with hold | ⟨rfl, -⟩
    · -- an open connection with the name of the new one
      have hlt : c < s.names.length := (List.getElem?_eq_some_iff.1 hold).1
      have hmod : c ≡ s.names.length [MOD 2 ^ 32] :=
        (nameOf_eq_iff _ _).1 (hnamed.names c _ hold).symm
      exact absurd hmod (hclash c ⟨hlt, hopen⟩)
    · rfl
  · have hentry : (s.newConnection server).connections name = s.connections name := by
      rw [hnamed.newConnection_connections, Function.update_of_ne hname]
    rw [hentry, h name c]
    refine and_congr_left fun _ => ⟨.inl, fun hor => ?_⟩
    rcases hor with hold | ⟨rfl, heq⟩
    · exact hold
    · exact absurd heq hname

theorem Faithful.removeConnectionInLoop (h : Faithful s) (hnamed : Named server s) {c : ℕ}
    {name : List Char} (hname : s.names[c]? = some name)
    (hclash : NoClash s (.removeConnectionInLoop c)) :
    Faithful (s.removeConnectionInLoop c name) := by
  intro other d
  have hremoved : d ∉ (s.removeConnectionInLoop c name).removed ↔ d ≠ c ∧ d ∉ s.removed := by
    simp [Registry.removeConnectionInLoop]
  rw [hremoved]
  by_cases hother : other = name
  · subst hother
    rw [removeConnectionInLoop_connections_self]
    refine ⟨nofun, fun ⟨hd, hne, hopen⟩ => ?_⟩
    have hlt : d < s.names.length := (List.getElem?_eq_some_iff.1 hd).1
    exact absurd (hclash d ⟨hlt, hopen⟩ (hnamed.modEq hd hname)) hne
  · have hentry : (s.removeConnectionInLoop c name).connections other = s.connections other :=
      Function.update_of_ne hother _ _
    rw [hentry, h other d]
    refine and_congr_right fun hd => ⟨fun hopen => ⟨?_, hopen⟩, And.right⟩
    rintro rfl
    exact hother (Option.some.inj (hd.symm.trans hname))

theorem Faithful.step (h : Faithful s) (hnamed : Named server s) (hstep : Step server s label t)
    (hclash : NoClash s label) : Faithful t := by
  cases hstep with
  | newConnection => exact h.newConnection hnamed hclash
  | removeConnectionInLoop hname => exact h.removeConnectionInLoop hnamed hname hclash

theorem Faithful.hasEntry_iff (h : Faithful s) (c : ℕ) : s.HasEntry c ↔ s.IsOpen c := by
  constructor
  · rintro ⟨name, hname, hentry⟩
    exact ⟨(List.getElem?_eq_some_iff.1 hname).1, ((h name c).1 hentry).2⟩
  · rintro ⟨hlt, hopen⟩
    have hname := List.getElem?_eq_getElem hlt
    exact ⟨_, hname, (h _ c).2 ⟨hname, hopen⟩⟩

/-! ## The theorem -/

/-- Only its removal closes a connection. -/
theorem isOpen_step (hnamed : Named server s) (hstep : Step server s label t) {c : ℕ}
    (hopen : s.IsOpen c) (hlabel : label ≠ .removeConnectionInLoop c) : t.IsOpen c := by
  cases hstep with
  | newConnection => exact (hnamed.newConnection_isOpen_iff c).2 (.inl hopen)
  | @removeConnectionInLoop d name hname =>
      refine (s.removeConnectionInLoop_isOpen_iff d c name).2 ⟨hopen, ?_⟩
      rintro rfl
      exact hlabel rfl

theorem keeps_of_noClash (h : Faithful s) (hnamed : Named server s)
    (hstep : Step server s label t) (hclash : NoClash s label) : Keeps s label t where
  kept := fun c hopen hlabel =>
    ((h.step hnamed hstep hclash).hasEntry_iff c).2 (isOpen_step hnamed hstep hopen hlabel)
  erased := by
    rintro c rfl hentry
    have hopen := ((h.step hnamed hstep hclash).hasEntry_iff c).1 hentry
    cases hstep with
    | removeConnectionInLoop => exact hopen.2 (Finset.mem_insert_self _ _)

theorem noClash_of_keeps (hnamed : Named server s) (hstep : Step server s label t)
    (hkeeps : Keeps s label t) : NoClash s label := by
  cases hstep with
  | newConnection =>
      intro c hopen hmod
      obtain ⟨name, hname, hentry⟩ := hkeeps.kept c hopen nofun
      -- the name of `c` is the name of the new connection, whose entry it is
      have hold : s.names[c]? = some (nameOf server c) := hnamed.getElem? hopen.1
      obtain rfl : nameOf server c = name := by
        have hnew := (hnamed.newConnection_getElem? c _).2 (.inl hold)
        exact Option.some.inj (hnew.symm.trans hname)
      rw [(nameOf_eq_iff _ _).2 hmod, hnamed.newConnection_connections, Function.update_self]
        at hentry
      exact hopen.1.ne (Option.some.inj hentry).symm
  | @removeConnectionInLoop c name hname =>
      intro d hopen hmod
      by_contra hne
      obtain ⟨other, hother, hentry⟩ := hkeeps.kept d hopen fun heq => hne (by cases heq; rfl)
      obtain rfl : other = name := by
        rw [hnamed.names c name hname, hnamed.names d other hother]
        exact (nameOf_eq_iff _ _).2 hmod
      rw [removeConnectionInLoop_connections_self] at hentry
      cases hentry

theorem run_faithful {labels : List Label}
    (hrun : Run (restrict (Step server) NoClash) {} labels s) : Named server s ∧ Faithful s :=
  hrun.invariant (P := fun s => Named server s ∧ Faithful s) ⟨start_named, start_faithful⟩
    fun _ _ _ h hstep => ⟨h.1.step hstep.1, h.2.step h.1 hstep.1 hstep.2⟩

/-- As long as no new connection meets an open one with a congruent number, and none is
removed a second time while such a one is open, the map has each open connection under its
name and nothing else.  A step that is not so costs an open connection its entry. -/
theorem connections_faithful (server : TcpServer) :
    (∀ labels s, Run (restrict (Step server) NoClash) {} labels s →
      ∀ name c, s.connections name = some c ↔ s.names[c]? = some name ∧ c ∉ s.removed) ∧
    ∀ labels s, Run (restrict (Step server) NoClash) {} labels s →
      ∀ label t, Step server s label t → (Keeps s label t ↔ NoClash s label) := by
  refine ⟨fun labels s hrun => (run_faithful hrun).2, fun labels s hrun label t hstep => ?_⟩
  obtain ⟨hnamed, hfaithful⟩ := run_faithful hrun
  exact ⟨noClash_of_keeps hnamed hstep, keeps_of_noClash hfaithful hnamed hstep⟩

/-! ## The number has not come round -/

theorem noClash_newConnection (hlength : s.names.length < 2 ^ 32) : NoClash s .newConnection := by
  intro c hopen hmod
  exact hopen.1.ne (Nat.ModEq.eq_of_lt_of_lt hmod (hopen.1.trans hlength) hlength)

theorem noClash_removeConnectionInLoop (hlength : s.names.length ≤ 2 ^ 32) {c : ℕ}
    (hc : c < s.names.length) : NoClash s (.removeConnectionInLoop c) :=
  fun _ hopen hmod =>
    Nat.ModEq.eq_of_lt_of_lt hmod (hopen.1.trans_le hlength) (hc.trans_le hlength)

theorem connName_ofNat (server : TcpServer) {c : ℕ} (hc : c < 2 ^ 31) :
    connName server (BitVec.ofNat 32 c) = server.connName c := by
  have hnat : (BitVec.ofNat 32 c).toNat = c := Nat.mod_eq_of_lt (hc.trans (by decide))
  have hint : (BitVec.ofNat 32 c).toInt = (c : ℤ) := by
    rw [BitVec.toInt_eq_toNat_of_lt (by rw [hnat]; omega), hnat]
  rw [connName, TcpServer.connName, hint]
  rfl

/-- `r` is the registry of the server; connection `c` of `r` is `c + 1` in `s`. -/
structure Tracks (s : State) (r : Registry) : Prop where
  nextConnId : s.nextConnId = r.names.length + 1
  connections : ∀ name, s.connections name = (r.connections name).map (· + 1)
  conns : ∀ c k, s.conns c = some k → 0 < c

namespace Tracks

variable {a b : State} {r : Registry}

theorem start : Tracks {} {} where
  nextConnId := rfl
  connections := fun _ => rfl
  conns := fun _ _ h => nomatch h

theorem congr (h : Tracks a r) (hnext : b.nextConnId = a.nextConnId)
    (hconnections : b.connections = a.connections) (hconns : b.conns = a.conns) : Tracks b r where
  nextConnId := hnext.trans h.nextConnId
  connections := hconnections ▸ h.connections
  conns := hconns ▸ h.conns

theorem update (h : Tracks a r) {c : ℕ} {k k' : Conn} (hconn : a.conns c = some k)
    (hnext : b.nextConnId = a.nextConnId) (hconnections : b.connections = a.connections)
    (hconns : b.conns = Function.update a.conns c (some k')) : Tracks b r where
  nextConnId := hnext.trans h.nextConnId
  connections := hconnections ▸ h.connections
  conns := by
    intro d e hd
    by_cases heq : d = c
    · exact heq ▸ h.conns c k hconn
    · rw [hconns, Function.update_of_ne heq] at hd
      exact h.conns d e hd

theorem newConnection (h : Tracks a r) (hnamed : Named server r) (hwf : WellFormed server a)
    (loop fd : ℕ) :
    Tracks (a.newConnection server loop fd) (r.newConnection server) where
  nextConnId := by
    show a.nextConnId + 1 = (r.names ++ _).length + 1
    rw [h.nextConnId, List.length_append, List.length_singleton]
  connections := by
    intro name
    have hname : server.connName a.nextConnId = connName server r.nextConnId := by
      rw [hnamed.nextConnId, ← h.nextConnId, connName_ofNat server hwf.bound]
    show Function.update a.connections (server.connName a.nextConnId) _ name =
      (Function.update r.connections (connName server r.nextConnId) _ name).map (· + 1)
    rw [hname]
    by_cases heq : name = connName server r.nextConnId
    · rw [heq, Function.update_self, Function.update_self, h.nextConnId, Option.map_some]
    · rw [Function.update_of_ne heq, Function.update_of_ne heq, h.connections name]
  conns := by
    intro c k hk
    by_cases heq : c = a.nextConnId
    · rw [heq, h.nextConnId]
      exact Nat.succ_pos _
    · rw [State.newConnection_conns_of_ne _ _ _ _ _ heq] at hk
      exact h.conns c k hk

theorem removeConnectionInLoop (h : Tracks a r) (c d : ℕ) (k : Conn) :
    Tracks (a.removeConnectionInLoop d k) (r.removeConnectionInLoop c k.name) where
  nextConnId := h.nextConnId
  connections := by
    intro name
    show Function.update a.connections k.name none name =
      (Function.update r.connections k.name none name).map (· + 1)
    by_cases heq : name = k.name
    · rw [heq, Function.update_self, Function.update_self, Option.map_none]
    · rw [Function.update_of_ne heq, Function.update_of_ne heq, h.connections name]
  conns := h.conns

end Tracks

/-- The server runs the registry, each time without a clash. -/
theorem tracks_run {labels : List Server.Label} {a : State}
    (hrun : Run (Server.Step server) {} labels a) :
    ∃ labels' r, Run (restrict (Step server) NoClash) {} labels' r ∧ Tracks a r := by
  have h : WellFormed server a ∧
      ∃ labels' r, Run (restrict (Step server) NoClash) {} labels' r ∧ Tracks a r := by
    induction hrun with
    | nil => exact ⟨.initial, [], {}, .nil, .start⟩
    | snoc hinit hlast ih =>
        obtain ⟨hwf, labels', r, hrun', htracks⟩ := ih
        obtain ⟨hnamed, -⟩ := run_faithful hrun'
        refine ⟨hwf.step hlast, ?_⟩
        have hbound := hwf.bound
        rw [htracks.nextConnId] at hbound
        cases hlast with
        | newConnection loop fd =>
            exact ⟨_, _, hrun'.snoc ⟨.newConnection, noClash_newConnection (by omega)⟩,
              htracks.newConnection hnamed hwf loop fd⟩
        | @baseRun c rest k hbase htodo hconn =>
            obtain ⟨i, rfl⟩ := Nat.exists_eq_succ_of_ne_zero (htracks.conns c k hconn).ne'
            obtain ⟨hlt, hname⟩ := hwf.conns _ k hconn
            rw [htracks.nextConnId] at hlt
            have hi : i < r.names.length := Nat.lt_of_succ_lt_succ hlt
            have hget : r.names[i]? = some k.name := by
              rw [hnamed.getElem? hi, nameOf, connName_ofNat server (by omega), hname]
            refine ⟨_, _, hrun'.snoc ⟨.removeConnectionInLoop hget,
              noClash_removeConnectionInLoop (by omega) hi⟩, ?_⟩
            have hpopped : Tracks (State.popBase _) r := htracks.congr rfl rfl rfl
            exact hpopped.removeConnectionInLoop i (i + 1) k
        | callback _ _ _ _ _ _ hconn _ => exact ⟨_, r, hrun', htracks.update hconn rfl rfl rfl⟩
        | run _ _ _ _ _ hconn _ => exact ⟨_, r, hrun', htracks.update hconn rfl rfl rfl⟩
        | call _ _ hconn _ _ => exact ⟨_, r, hrun', htracks.update hconn rfl rfl rfl⟩
        | storeDisconnecting _ _ hconn => exact ⟨_, r, hrun', htracks.update hconn rfl rfl rfl⟩
        | destroy _ hconn _ _ => exact ⟨_, r, hrun', htracks.update hconn rfl rfl rfl⟩
        | _ => exact ⟨_, r, hrun', htracks.congr rfl rfl rfl⟩
  exact h.2

/-! ## The number comes round -/

/-- Connection 0 stays open while `n` others come and go. -/
theorem exists_run (server : TcpServer) {n : ℕ} (hn : n < 2 ^ 32) :
    ∃ labels s, Run (restrict (Step server) NoClash) {} labels s ∧ s.names.length = n + 1 ∧
      ∀ c, s.IsOpen c ↔ c = 0 := by
  induction n with
  | zero =>
      refine ⟨_, _, Run.single ⟨.newConnection, noClash_newConnection (by decide)⟩, rfl,
        fun c => ?_⟩
      rw [start_named.newConnection_isOpen_iff]
      exact ⟨fun hor => hor.elim (fun hopen => absurd hopen.1 (Nat.not_lt_zero c)) id, .inr⟩
  | succ n ih =>
      obtain ⟨labels, s, hrun, hlength, hopen⟩ := ih (Nat.lt_of_succ_lt hn)
      have hnamed : Named server s := (run_faithful hrun).1
      have hlength' : (s.newConnection server).names.length = n + 2 := by
        show (s.names ++ _).length = _
        rw [List.length_append, hlength, List.length_singleton]
      have hname : (s.newConnection server).names[n + 1]? = some (nameOf server (n + 1)) :=
        (hnamed.newConnection_getElem? _ _).2 (.inr ⟨hlength.symm, rfl⟩)
      refine ⟨_, _, (hrun.snoc ⟨.newConnection, noClash_newConnection (by omega)⟩).snoc
        ⟨.removeConnectionInLoop hname, noClash_removeConnectionInLoop (by omega) (by omega)⟩,
        hlength', fun c => ?_⟩
      rw [removeConnectionInLoop_isOpen_iff, hnamed.newConnection_isOpen_iff, hopen, hlength]
      omega

def localServer : TcpServer where
  name := ['E', 'c', 'h', 'o']
  ipPort := ['1', '2', '7', '.', '0', '.', '0', '.', '1', ':', '8', '0']
  ipPort_length := by decide

/-- Connection 0 has its entry after `2 ^ 32 - 2` others have come and gone, and keeps it when
the next one is accepted. -/
theorem connections_faithful_local : ∃ s, s.names.length = 2 ^ 32 - 1 ∧
    s.connections (nameOf localServer 0) = some 0 ∧
      Keeps s .newConnection (s.newConnection localServer) := by
  obtain ⟨labels, s, hrun, hlength, hopen⟩ :=
    exists_run localServer (show 2 ^ 32 - 2 < 2 ^ 32 by decide)
  obtain ⟨hfaithful, hkeeps⟩ := connections_faithful localServer
  obtain ⟨hlt, hremoved⟩ := (hopen 0).2 rfl
  refine ⟨s, hlength, (hfaithful labels s hrun _ 0).2 ⟨?_, hremoved⟩, ?_⟩
  · rw [(run_faithful hrun).1.getElem? hlt]
  · exact (hkeeps labels s hrun _ _ .newConnection).2
      (noClash_newConnection (by rw [hlength]; decide))

/-- The connection that is accepted when `2 ^ 32 - 1` others have come and gone takes the
name of the first one, which is open, and its entry. -/
theorem entry_overwritten :
    ¬ ∀ (server : TcpServer) (labels : List Label) (s t : Registry),
      Run (Step server) {} labels s → Step server s .newConnection t →
        ∀ c, s.IsOpen c → s.HasEntry c → t.HasEntry c := by
  intro hclaim
  obtain ⟨labels, s, hrun, hlength, hopen⟩ :=
    exists_run localServer (show 2 ^ 32 - 1 < 2 ^ 32 by decide)
  obtain ⟨hnamed, hfaithful⟩ := run_faithful hrun
  have hkeeps : Keeps s .newConnection (s.newConnection localServer) := by
    refine ⟨fun c hc _ => ?_, nofun⟩
    exact hclaim localServer labels s _ (hrun.mono fun _ _ _ hstep => hstep.1) .newConnection c hc
      ((hfaithful.hasEntry_iff c).2 hc)
  have hclash := noClash_of_keeps hnamed .newConnection hkeeps 0 ((hopen 0).2 rfl)
  rw [hlength] at hclash
  exact hclash (by decide)

end Registry

end Server

end MuduoLite
