import MuduoLite.Server.Ownership

/-!
# Addresses

An `InetAddress` is a `sockaddr_in`, which holds its port and its address in network byte
order.  The server prints it into buffers of 64 bytes: the ip of a peer is the key of its
loop, and the address that a server listens on is part of the names of its connections.

The text determines the address, and a name determines the server and the connection: the
name of the server ends at the last `-`, and the number of the connection starts after the
last `#`, since neither an address nor a number has a `-` or a `#` in it.
-/

namespace MuduoLite

/-- A `sockaddr_in` of the family `AF_INET`. -/
structure InetAddress where
  /-- in network byte order -/
  sin_port : BitVec 16
  /-- the bytes of `sin_addr`, from the first on -/
  sin_addr : Vector Byte 4
  deriving DecidableEq

namespace InetAddress

/-! ## Operations -/

/-- The host is little-endian. -/
def ntohs (port : BitVec 16) : BitVec 16 := port.rotateLeft 8

/-- `inet_ntop` -/
def toIp (addr : InetAddress) : List Char :=
  ['.'].intercalate (addr.sin_addr.toList.map fun byte => Nat.toDigits 10 byte.toNat)

def toPort (addr : InetAddress) : BitVec 16 := ntohs addr.sin_port

def toIpPort (addr : InetAddress) : List Char :=
  addr.toIp ++ ':' :: Nat.toDigits 10 addr.toPort.toNat

/-! ## The text of an address -/

variable (addr : InetAddress)

theorem ntohs_ntohs (port : BitVec 16) : ntohs (ntohs port) = port := by
  ext i hi
  simp only [ntohs, BitVec.getElem_rotateLeft]
  grind

theorem exists_sin_addr : ∃ a b c d, addr.sin_addr = #v[a, b, c, d] := by
  obtain ⟨port, ⟨⟨bytes⟩, hsize⟩⟩ := addr
  match bytes, hsize with
  | [a, b, c, d], _ => exact ⟨a, b, c, d, rfl⟩

theorem toIp_eq {a b c d : Byte} (h : addr.sin_addr = #v[a, b, c, d]) :
    addr.toIp = Nat.toDigits 10 a.toNat ++ '.' :: (Nat.toDigits 10 b.toNat ++ '.' ::
      (Nat.toDigits 10 c.toNat ++ '.' :: Nat.toDigits 10 d.toNat)) := by
  simp [toIp, h, List.intercalate]

theorem length_byte_le (byte : Byte) : (Nat.toDigits 10 byte.toNat).length ≤ 3 :=
  (Nat.length_toDigits_le_iff (by decide) (by decide)).2 (byte.toNat_lt.trans (by decide))

/-- `255.255.255.255` -/
theorem length_toIp_le : addr.toIp.length ≤ 15 := by
  obtain ⟨a, b, c, d, h⟩ := addr.exists_sin_addr
  rw [addr.toIp_eq h]
  simp only [List.length_append, List.length_cons]
  have ha := length_byte_le a
  have hb := length_byte_le b
  have hc := length_byte_le c
  have hd := length_byte_le d
  omega

/-- `255.255.255.255:65535` -/
theorem length_toIpPort_le : addr.toIpPort.length ≤ 21 := by
  have hip := addr.length_toIp_le
  have hport : (Nat.toDigits 10 addr.toPort.toNat).length ≤ 5 :=
    (Nat.length_toDigits_le_iff (by decide) (by decide)).2
      (addr.toPort.isLt.trans (by decide))
  rw [toIpPort, List.length_append, List.length_cons]
  omega

/-- A character that is no digit is not in the text, `.` and `:` apart. -/
theorem notMem_toIp {c : Char} (hdigit : c.isDigit = false) (hdot : c ≠ '.') : c ∉ addr.toIp := by
  obtain ⟨w, x, y, z, h⟩ := addr.exists_sin_addr
  rw [addr.toIp_eq h]
  simp only [List.mem_append, List.mem_cons, Decimal.notMem_toDigits hdigit, hdot, or_self,
    not_false_eq_true]

theorem notMem_toIpPort {c : Char} (hdigit : c.isDigit = false) (hdot : c ≠ '.')
    (hcolon : c ≠ ':') : c ∉ addr.toIpPort := by
  simp only [toIpPort, List.mem_append, List.mem_cons, addr.notMem_toIp hdigit hdot, hcolon,
    Decimal.notMem_toDigits hdigit, or_self, not_false_eq_true]

/-! ## The text determines the address -/

variable {addr} {other : InetAddress}

theorem toDigits_byte_injective : Function.Injective fun byte : Byte =>
    Nat.toDigits 10 byte.toNat :=
  fun _ _ h => UInt8.toNat_inj.1 (Decimal.toDigits_injective h)

theorem toIp_inj (h : addr.toIp = other.toIp) : addr.sin_addr = other.sin_addr := by
  have hparts (addr : InetAddress) : addr.toIp.splitOn '.' =
      addr.sin_addr.toList.map fun byte => Nat.toDigits 10 byte.toNat := by
    apply List.splitOn_intercalate
    · intro digits hdigits
      obtain ⟨byte, -, rfl⟩ := List.mem_map.1 hdigits
      exact Decimal.notMem_toDigits (by decide) byte.toNat
    · obtain ⟨a, b, c, d, haddr⟩ := addr.exists_sin_addr
      simp [haddr]
  have hbytes := (hparts addr).symm.trans ((congrArg (List.splitOn '.') h).trans (hparts other))
  exact Vector.toList_inj.1 (List.map_injective_iff.2 toDigits_byte_injective hbytes)

theorem toIpPort_inj (h : addr.toIpPort = other.toIpPort) : addr = other := by
  obtain ⟨hip, hdigits⟩ := Decimal.append_cons_inj (Decimal.notMem_toDigits (by decide) _)
    (Decimal.notMem_toDigits (by decide) _) h
  have hport : addr.toPort = other.toPort :=
    BitVec.eq_of_toNat_eq (Decimal.toDigits_injective hdigits)
  have hnet := congrArg ntohs hport
  rw [toPort, toPort, ntohs_ntohs, ntohs_ntohs] at hnet
  cases addr
  cases other
  rw [InetAddress.mk.injEq]
  exact ⟨hnet, toIp_inj hip⟩

end InetAddress

/-! ## The names of connections -/

/-- The constructor and the setter of `writeCompleteCallback_`. -/
def TcpServer.new (listenAddr : InetAddress) (nameArg : List Char)
    (writeCompleteCallback : Bool) : TcpServer where
  name := nameArg
  ipPort := listenAddr.toIpPort
  ipPort_length := listenAddr.length_toIpPort_le
  writeCompleteCallback := writeCompleteCallback

/-- The name of a connection is never cut off and tells its server, the address that the server
listens on, and its number: no two connections of one process have the same name unless two
of its servers have the same name and the same address. -/
theorem TcpServer.connName_tells (listenAddr listenAddr' : InetAddress)
    (nameArg nameArg' : List Char) (writeCompleteCallback writeCompleteCallback' : Bool) (c d : ℕ)
    (hc : c < 2 ^ 31) (hd : d < 2 ^ 31) :
    (TcpServer.new listenAddr nameArg writeCompleteCallback).connName c =
        nameArg ++ '-' :: (listenAddr.toIpPort ++ '#' :: Nat.toDigits 10 c) ∧
    ((TcpServer.new listenAddr nameArg writeCompleteCallback).connName c =
        (TcpServer.new listenAddr' nameArg' writeCompleteCallback').connName d ↔
      nameArg = nameArg' ∧ listenAddr = listenAddr' ∧ c = d) := by
  refine ⟨connName_eq _ hc, ?_⟩
  constructor
  · intro h
    rw [connName_eq _ hc, connName_eq _ hd] at h
    have hnumber (addr : InetAddress) (n : ℕ) :
        '-' ∉ addr.toIpPort ++ '#' :: Nat.toDigits 10 n := by
      simp [addr.notMem_toIpPort (c := '-') (by decide) (by decide) (by decide),
        Decimal.notMem_toDigits (c := '-') (by decide)]
    obtain ⟨hname, hrest⟩ := Decimal.append_cons_inj (hnumber _ c) (hnumber _ d) h
    obtain ⟨haddr, hdigits⟩ := Decimal.append_cons_inj (Decimal.notMem_toDigits (by decide) c)
      (Decimal.notMem_toDigits (by decide) d) hrest
    exact ⟨hname, InetAddress.toIpPort_inj haddr, Decimal.toDigits_injective hdigits⟩
  · rintro ⟨rfl, rfl, rfl⟩
    rw [connName_eq _ hc, connName_eq _ hc]
    rfl

/-- The second connection of a server is not named like the first one. -/
theorem TcpServer.connName_tells_second :
    (TcpServer.new ⟨0x901F, #v[127, 0, 0, 1]⟩ ['s'] false).connName 1 ≠
      (TcpServer.new ⟨0x901F, #v[127, 0, 0, 1]⟩ ['s'] false).connName 2 := by
  intro h
  have htells := (TcpServer.connName_tells _ _ _ _ _ _ 1 2 (by decide) (by decide)).2.1 h
  exact absurd htells.2.2 (by decide)

end MuduoLite
