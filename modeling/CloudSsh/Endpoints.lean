import CloudSsh.CallByCall

/-!
# The endpoint that is connected to

The host and the port of a socket reach `connect` through `inet_addr` and through two
conversions and a byte swap. The conversions are faithful on all ports there are, but
nothing rejects other integers, nor a host that `inet_addr` has rejected.
-/
namespace CloudSsh.Endpoints
open ScopedPrograms RecordedPrograms LibraryCalls WrapperObjects WrapperClasses CallByCall

/-! ## Numbers in memory -/

/-- The bytes of a 16-bit number in the memory of a little-endian host. -/
def memory16 (x : UInt16) : Bytes := [UInt8.ofNat x.toNat, UInt8.ofNat (x.toNat / 256)]

def memory32 (x : UInt32) : Bytes :=
  [UInt8.ofNat x.toNat, UInt8.ofNat (x.toNat / 256), UInt8.ofNat (x.toNat / 65536),
    UInt8.ofNat (x.toNat / 16777216)]

/-- The number that bytes in network byte order, the most significant first, stand for. -/
def networkNumber (bytes : Bytes) : ℕ := bytes.foldl (fun n b => n * 256 + b.toNat) 0

theorem htons_toNat (port : UInt16) :
    (htons port).toNat = 256 * (port.toNat % 256) + port.toNat / 256 := by
  have hport := port.toNat_lt
  have hor := Nat.two_pow_add_eq_or_of_lt (i := 8) (b := port.toNat / 256) (by omega)
    (port.toNat % 256)
  rw [htons, UInt16.toNat_or, UInt16.toNat_shiftLeft, UInt16.toNat_shiftRight, Nat.shiftLeft_eq,
    Nat.shiftRight_eq_div_pow]
  simp only [UInt16.toNat_ofNat, Nat.reducePow, Nat.reduceMod] at hor ⊢
  rw [hor, show port.toNat * 256 % 65536 = 256 * (port.toNat % 256) by omega]

/-- `htons` puts a port into network byte order. -/
theorem networkNumber_htons (port : UInt16) :
    networkNumber (memory16 (htons port)) = port.toNat := by
  have hport := port.toNat_lt
  have hhigh : (256 * (port.toNat % 256) + port.toNat / 256) % 256 = port.toNat / 256 := by omega
  have hlow : (256 * (port.toNat % 256) + port.toNat / 256) / 256 % 256 = port.toNat % 256 := by
    omega
  simp only [networkNumber, memory16, htons_toNat, List.foldl_cons, List.foldl_nil,
    UInt8.toNat_ofNat', Nat.reducePow, hhigh, hlow]
  omega

/-- On the way through `int16_t` to `uint16_t` a port loses a multiple of 65536 and nothing
else. -/
theorem port_toNat (port : Int) : ((Int16.ofInt port).toUInt16.toNat : Int) = port % 65536 := by
  have hbits : (Int16.ofInt port).toUInt16.toNat = (BitVec.ofInt 16 port).toNat := rfl
  rw [hbits, BitVec.toNat_ofInt]
  omega

/-! ## Addresses -/

structure IPv4 where
  (a b c d : UInt8)
  deriving DecidableEq

def IPv4.bytes (x : IPv4) : Bytes := [x.a, x.b, x.c, x.d]

/-- The `in_addr_t` whose bytes in memory are those of the address, in their order. -/
def IPv4.networkOrder (x : IPv4) : UInt32 :=
  UInt32.ofNat (x.a.toNat + 256 * x.b.toNat + 65536 * x.c.toNat + 16777216 * x.d.toNat)

theorem IPv4.memory_networkOrder (x : IPv4) : memory32 x.networkOrder = x.bytes := by
  obtain ⟨a, b, c, d⟩ := x
  have ha := a.toNat_lt
  have hb := b.toNat_lt
  have hc := c.toNat_lt
  have hd := d.toNat_lt
  have hnat : (networkOrder ⟨a, b, c, d⟩).toNat =
      a.toNat + 256 * b.toNat + 65536 * c.toNat + 16777216 * d.toNat := by
    rw [networkOrder, UInt32.toNat_ofNat']
    exact Nat.mod_eq_of_lt (by dsimp only; omega)
  simp only [memory32, hnat, bytes, List.cons.injEq, and_true]
  refine ⟨?_, ?_, ?_, ?_⟩ <;>
    (apply UInt8.toNat_inj.mp; rw [UInt8.toNat_ofNat']; omega)

def inaddrNone : UInt32 := 4294967295

/-- `inet_addr`, where `ipv4` says which strings denote an address. -/
def inetAddr (ipv4 : Bytes → Option IPv4) (host : Bytes) : UInt32 :=
  match ipv4 host with
  | some x => x.networkOrder
  | none => inaddrNone

/-! ## The constructor of `Socket` -/

/-- What `Socket::create(host, port)` is answered, where `inet_addr` is that of `ipv4`. -/
def networkOf (ipv4 : Bytes → Option IPv4) (socket : Bool) (connect : Int) : Network :=
  ⟨socket, inetAddr ipv4, connect⟩

/-- `Socket::create(host, port)`: the integer becomes an `int16_t`. -/
def createSocket (host : Bytes) (port : Int) (net : Network) : M ℕ :=
  Socket.create (some host) (Int16.ofInt port) net

/-- The host denotes an address and the port is one. -/
def IsEndpoint (ipv4 : Bytes → Option IPv4) (host : Bytes) (port : Int) : Prop :=
  ipv4 host ≠ none ∧ 0 ≤ port ∧ port ≤ 65535

/-- The address handed to `connect` is that of the host and the port. -/
structure Names (ipv4 : Bytes → Option IPv4) (host : Bytes) (port : Int) (sin : SockAddrIn) :
    Prop where
  endpoint : IsEndpoint ipv4 host port
  family : sin.family = 2
  port : networkNumber (memory16 sin.port) = port
  addr : ∃ x, ipv4 host = some x ∧ memory32 sin.addr = x.bytes

/-- The constructor connects to the named endpoint or not at all. -/
structure NamedOrNone (ipv4 : Bytes → Option IPv4) (host : Bytes) (port : Int) (net : Network)
    (w : World) : Prop where
  named : ∀ sock sin ret, .connect sock sin ret ∈ callsBy (createSocket host port net) w →
    Names ipv4 host port sin
  throws : ¬ IsEndpoint ipv4 host port → (∃ e, (createSocket host port net w).1 = .error e) ∧
    ∀ sock sin ret, .connect sock sin ret ∉ callsBy (createSocket host port net) w

variable (host : Bytes) (port : Int) (net : Network) (w : World)

theorem createSocket_denied (hs : net.socket = false) :
    (createSocket host port net w).1 = .error (.runtimeError "Socket error.\n") ∧
      callsBy (createSocket host port net) w = [.socket 2 1 0 none] := by
  have hsock : Runs recorder (acquire net.socket (.socket 2 1 0)) (recorder.core w) (.ok none)
      [.socket 2 1 0 none] (recorder.core w) := by
    rw [hs]
    exact acquire_denied _
  exact callsBy_of_runs (hsock.bind (Runs.raise _))

/-- The address that is handed to `connect` once there is a descriptor. -/
def target (host : Bytes) (port : Int) (net : Network) : SockAddrIn :=
  ⟨2, htons (Int16.ofInt port).toUInt16, net.inetAddr host⟩

theorem connectOn_runs (fd : ℕ) (m : Memory) :
    ∃ res, Runs recorder (Socket.connectOn (some fd) host (Int16.ofInt port).toUInt16 net) m res
      [.connect (some fd) (target host port net) net.connect] m := by
  by_cases hc : net.connect ≠ 0
  · exact ⟨_, (issue_runs _).bind (Runs.raiseIf_true _ hc)⟩
  · exact ⟨_, (issue_runs _).bind (Runs.raiseIf_false _ hc)⟩

theorem createSocket_granted (hs : net.socket = true) :
    callsBy (createSocket host port net) w = [.socket 2 1 0 (some w.nextHandle),
      .connect (some w.nextHandle) (target host port net) net.connect] := by
  have hsock : Runs recorder (acquire net.socket (.socket 2 1 0)) (recorder.core w)
      (.ok (some w.nextHandle)) [.socket 2 1 0 (some w.nextHandle)]
      { recorder.core w with nextHandle := w.nextHandle + 1 } := by
    rw [hs]
    exact acquire_granted _
  obtain ⟨res, hconnect⟩ := connectOn_runs host port net w.nextHandle
    { recorder.core w with nextHandle := w.nextHandle + 1 }
  cases res with
  | ok _ => exact (callsBy_of_runs (hsock.bind (hconnect.bind (place_runs (.socket _))))).2
  | error e => exact (callsBy_of_runs (hsock.bind (hconnect.bind_error _))).2

theorem connect_mem (hs : net.socket = true) :
    .connect (some w.nextHandle) (target host port net) net.connect ∈
      callsBy (createSocket host port net) w := by
  rw [createSocket_granted host port net w hs]
  simp

variable {host port}

theorem target_names {ipv4 : Bytes → Option IPv4} (h : IsEndpoint ipv4 host port) (socket : Bool)
    (connect : Int) : Names ipv4 host port (target host port (networkOf ipv4 socket connect)) := by
  obtain ⟨hhost, hlow, hhigh⟩ := h
  obtain ⟨x, hx⟩ := Option.ne_none_iff_exists'.mp hhost
  refine ⟨⟨hhost, hlow, hhigh⟩, rfl, ?_, x, hx, ?_⟩
  · rw [target, networkNumber_htons, port_toNat]
    omega
  · simp only [target, networkOf, inetAddr, hx, IPv4.memory_networkOrder]

variable (host port)

/-- For every host and every integer port the constructor connects to the named endpoint or not at
all if and only if they do name one, or there is no descriptor to connect. -/
theorem namedOrNone_iff (ipv4 : Bytes → Option IPv4) (socket : Bool) (connect : Int) :
    NamedOrNone ipv4 host port (networkOf ipv4 socket connect) w ↔
      socket = false ∨ IsEndpoint ipv4 host port := by
  cases hs : socket with
  | false =>
    obtain ⟨hres, hcalls⟩ := createSocket_denied host port (networkOf ipv4 false connect) w rfl
    refine iff_of_true ⟨?_, fun _ => ⟨⟨_, hres⟩, ?_⟩⟩ (.inl rfl)
    all_goals simp [hcalls]
  | true =>
    have hcalls := createSocket_granted host port (networkOf ipv4 true connect) w rfl
    constructor
    · intro h
      exact .inr (h.named _ _ _ (connect_mem host port _ w rfl)).endpoint
    · intro h
      have hend := h.resolve_left (by simp)
      refine ⟨fun sock sin ret hmem => ?_, fun hnot => absurd hend hnot⟩
      rw [hcalls] at hmem
      obtain ⟨-, rfl, -⟩ : sock = some w.nextHandle ∧
          sin = target host port (networkOf ipv4 true connect) ∧ ret = connect := by
        simpa [networkOf] using hmem
      exact target_names hend true connect

/-- A string of four numbers is the only one that denotes an address here. -/
def loopbackOnly (host : Bytes) : Option IPv4 :=
  if host = bytes "127.0.0.1" then some ⟨127, 0, 0, 1⟩ else none

/-- Port 65558 of an address is port 22, and a host name is the broadcast address. -/
theorem other_endpoints_connected :
    let w : World := ⟨⟨[], [], 0, 0⟩, none⟩
    let net := networkOf loopbackOnly true 0
    ¬ NamedOrNone loopbackOnly (bytes "127.0.0.1") 65558 net w ∧
      ¬ NamedOrNone loopbackOnly (bytes "localhost") 22 net w := by
  refine ⟨fun h => ?_, fun h => ?_⟩
  · have hport := (h.named _ _ _ (connect_mem _ _ _ _ rfl)).endpoint.2.2
    simp at hport
  · have hhost := (h.named _ _ _ (connect_mem _ _ _ _ rfl)).endpoint.1
    exact hhost (by decide)

end CloudSsh.Endpoints
