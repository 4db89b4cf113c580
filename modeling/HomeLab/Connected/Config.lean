/-
  The configuration of a connected installation.

  A configuration is kept as canonical JSON and compared by its text.  The text
  determines the configuration (`encode_injective`).
-/
import HomeLab.Lib.Json

namespace HomeLab

namespace Connected

/-! ## Addresses -/

inductive Addr where
  | v4 (bits : BitVec 32)
  | v6 (bits : BitVec 128) (zone : Bytes)
  deriving DecidableEq

/-- How the library reads and writes addresses. -/
class Netip where
  parseAddr : Bytes → Option Addr
  string : Addr → Bytes

/-- The address is in one of the blocks, each given by its first address and its length. -/
def within {w : ℕ} (a : BitVec w) (blocks : List (ℕ × ℕ)) : Bool :=
  blocks.any fun b => a.toNat >>> (w - b.2) = b.1 >>> (w - b.2)

def ipv4 (a b c d : ℕ) : ℕ := ((a * 256 + b) * 256 + c) * 256 + d

/-- An IPv6 address whose last four groups are zero. -/
def ipv6 (a b c d : ℕ) : ℕ := (((a * 65536 + b) * 65536 + c) * 65536 + d) * 2 ^ 64

/-- The blocks of `PublicAddress` for either kind of address. -/
def reserved4 : List (ℕ × ℕ) :=
  [(ipv4 0 0 0 0, 8), (ipv4 100 64 0 0, 10), (ipv4 127 0 0 0, 8), (ipv4 169 254 0 0, 16),
   (ipv4 192 0 0 0, 24), (ipv4 192 0 2 0, 24), (ipv4 192 88 99 0, 24), (ipv4 198 18 0 0, 15),
   (ipv4 198 51 100 0, 24), (ipv4 203 0 113 0, 24), (ipv4 240 0 0 0, 4)]

def reserved6 : List (ℕ × ℕ) :=
  [(0, 96), (ipv6 0x64 0xff9b 0 0, 96), (ipv6 0x64 0xff9b 1 0, 48), (ipv6 0x100 0 0 0, 64),
   (ipv6 0x2001 0 0 0, 23), (ipv6 0x2001 0xdb8 0 0, 32), (ipv6 0x2002 0 0 0, 16),
   (ipv6 0x3fff 0 0 0, 20)]

/-- Loopback, multicast and link-local addresses, and private ones. -/
def local4 : List (ℕ × ℕ) :=
  [(ipv4 127 0 0 0, 8), (ipv4 224 0 0 0, 4), (ipv4 169 254 0 0, 16), (ipv4 10 0 0 0, 8),
   (ipv4 172 16 0 0, 12), (ipv4 192 168 0 0, 16)]

def local6 : List (ℕ × ℕ) :=
  [(1, 128), (ipv6 0xff00 0 0 0, 8), (ipv6 0xfe80 0 0 0, 10), (ipv6 0xfc00 0 0 0, 7)]

def publicAddress : Addr → Bool
  | .v4 a => a ≠ 0 && a ≠ BitVec.allOnes 32 && !within a local4 && !within a reserved4
  | .v6 a zone =>
    -- an IPv4 address in the form of an IPv6 address is refused
    zone = [] && !within a [(0xffff00000000, 96)] && a ≠ 0 && !within a local6 &&
      !within a reserved6 && within a [(ipv6 0x2000 0 0 0, 3)]

/-- A public address in the text that the library writes. -/
def acceptedAddress [Netip] (raw : Bytes) : Bool :=
  (Netip.parseAddr raw).any fun a => Netip.string a = raw && publicAddress a

/-! ## Configurations -/

def configVersion : Bytes := ascii "observer-connected-install/v1"

structure Config where
  version : Bytes
  state : Bytes
  serverId : Bytes
  connectorId : Bytes
  collectorUid : UInt32
  uploaderUid : UInt32
  uploaderGid : UInt32
  sharedGid : UInt32
  artifactSha256 : Bytes
  policyGeneration : UInt64
  addresses : List Bytes
  deriving DecidableEq, Repr

/-- `^srv_[a-f0-9]{32}$` and `^agent_[a-f0-9]{32}$`. -/
def idPattern (pre value : Bytes) : Bool := pre.isPrefixOf value && hexValue (value.drop pre.length) 32

/-- `^[a-f0-9]{64}$` -/
def digestPattern (value : Bytes) : Bool := hexValue value 64

/-- The ids of users and groups: none is root or the largest number. -/
def Config.principals (c : Config) : Bool :=
  [c.collectorUid, c.uploaderUid, c.uploaderGid, c.sharedGid].all (fun id => id ≠ 0 && id ≠ 4294967295) &&
  c.sharedGid ≠ c.uploaderGid && c.collectorUid ≠ c.uploaderUid

/-- Sorted, and no two neighbours are equal. -/
def ascending : List Bytes → Bool
  | a :: b :: rest => a ≤ b && a ≠ b && ascending (b :: rest)
  | _ => true

def Config.validate [Netip] (c : Config) : Bool :=
  c.principals && c.version = configVersion && c.state = ascii "INSTALLED_READY" &&
  idPattern (ascii "srv_") c.serverId && idPattern (ascii "agent_") c.connectorId &&
  digestPattern c.artifactSha256 && c.policyGeneration ≠ 0 && !c.addresses.isEmpty &&
  c.addresses.length ≤ 8 && ascending c.addresses && c.addresses.all acceptedAddress

def configNames : List Bytes :=
  [ascii "version", ascii "state", ascii "server_id", ascii "connector_id", ascii "collector_uid",
   ascii "uploader_uid", ascii "uploader_gid", ascii "shared_gid", ascii "artifact_sha256",
   ascii "policy_generation", ascii "addresses"]

def Config.json (c : Config) : Json :=
  .obj (configNames.zip
    [.str c.version, .str c.state, .str c.serverId, .str c.connectorId,
     .num (decimal c.collectorUid.toNat), .num (decimal c.uploaderUid.toNat),
     .num (decimal c.uploaderGid.toNat), .num (decimal c.sharedGid.toNat), .str c.artifactSha256,
     .num (decimal c.policyGeneration.toNat), .arr (c.addresses.map .str)])

def Config.encode [Netip] (c : Config) : Option Bytes :=
  if !c.validate then none else some c.json.render

/-! ## The text determines the configuration -/

theorem Config.wellFormed_json (c : Config) : c.json.WellFormed := by
  have haddresses : (Json.arr (c.addresses.map .str)).WellFormed :=
    Json.wellFormed_arr.2 fun x hx => by
      obtain ⟨t, -, rfl⟩ := List.mem_map.1 hx
      exact Json.wellFormed_str t
  exact ⟨trivial, trivial, trivial, trivial, Json.wellFormed_decimal _, Json.wellFormed_decimal _,
    Json.wellFormed_decimal _, Json.wellFormed_decimal _, trivial, Json.wellFormed_decimal _,
    haddresses, trivial⟩

theorem Config.json_injective : Function.Injective Config.json := by
  intro a b h
  obtain ⟨a1, a2, a3, a4, a5, a6, a7, a8, a9, a10, a11⟩ := a
  obtain ⟨b1, b2, b3, b4, b5, b6, b7, b8, b9, b10, b11⟩ := b
  simp only [Config.json, configNames, List.zip_cons_cons, List.zip_nil_right, Json.obj.injEq,
    List.cons.injEq, Prod.mk.injEq, Json.str.injEq, Json.num.injEq, Json.arr.injEq, true_and,
    and_true] at h
  obtain ⟨rfl, rfl, rfl, rfl, h5, h6, h7, h8, rfl, h10, h11⟩ := h
  have u32 : ∀ {x y : UInt32}, decimal x.toNat = decimal y.toNat → x = y :=
    fun hxy => UInt32.toNat_inj.1 (decimal_injective hxy)
  obtain rfl := u32 h5
  obtain rfl := u32 h6
  obtain rfl := u32 h7
  obtain rfl := u32 h8
  obtain rfl := UInt64.toNat_inj.1 (decimal_injective h10)
  obtain rfl := List.map_injective_iff.2 (fun _ _ => Json.str.inj) h11
  rfl

theorem Config.encode_eq_some [Netip] {c : Config} {data : Bytes} :
    c.encode = some data ↔ c.validate = true ∧ c.json.render = data := by
  rw [Config.encode]
  cases hv : c.validate <;> simp

theorem Config.encode_injective [Netip] {a b : Config} {data : Bytes}
    (ha : a.encode = some data) (hb : b.encode = some data) : a = b := by
  have ha' := (Config.encode_eq_some.1 ha).2
  have hb' := (Config.encode_eq_some.1 hb).2
  exact Config.json_injective
    (Json.render_injective a.wellFormed_json b.wellFormed_json (ha'.trans hb'.symm))

end Connected

end HomeLab
