import MeowMeowOS.Network

/-! What the ARP cache answers after any history of replies. Its sixteen entries are filled
in turn, and none is ever given up. -/
namespace MeowMeowOS.ArpCache
open ByteBuffer Network

/-- The cache as the kernel starts with it. -/
def emptyCache : List ArpEntry := List.replicate 16 ⟨[0, 0, 0, 0], [0, 0, 0, 0, 0, 0], false⟩

/-- The net once these replies have come, each an address and what it answered. -/
def heard (net : Net) (history : List (List UInt8 × List UInt8)) : Net :=
  history.foldl (fun net reply => arpCacheUpdate net reply.1 reply.2) { net with arpCache := emptyCache }

/-- The last answer of an address. -/
def lastMac (history : List (List UInt8 × List UInt8)) (ip : List UInt8) : Option (List UInt8) :=
  (history.reverse.find? fun reply => reply.1 = ip).map Prod.snd

/-- No entry is free. -/
def Full (net : Net) : Prop := ∀ entry ∈ net.arpCache, entry.valid = true

instance (net : Net) : Decidable (Full net) :=
  inferInstanceAs (Decidable (∀ entry ∈ net.arpCache, entry.valid = true))

section
variable {cache : List ArpEntry} {ip other mac : List UInt8} {net : Net}

def lookup (cache : List ArpEntry) (ip : List UInt8) : Option (List UInt8) :=
  (cache.find? fun entry => entry.valid ∧ entry.ip = ip).map ArpEntry.mac

theorem lookup_hit {entry : ArpEntry} {rest : List ArpEntry} (valid : entry.valid = true) (same : entry.ip = ip) :
    lookup (entry :: rest) ip = some entry.mac := by
  unfold lookup
  rw [List.find?_cons_of_pos (by simp [valid, same])]
  rfl

theorem lookup_pass {entry : ArpEntry} {rest : List ArpEntry} (passed : entry.valid = false ∨ entry.ip ≠ ip) :
    lookup (entry :: rest) ip = lookup rest ip := by
  unfold lookup
  rw [List.find?_cons_of_neg]
  rcases passed with free | different
  · simp [free]
  · simp [different]

/-- Another address resolves as before. -/
theorem lookup_updateEntry_other (different : other ≠ ip) :
    lookup (updateEntry ip mac cache) other = lookup cache other := by
  induction cache with
  | nil => rfl
  | cons entry rest ih =>
    rw [updateEntry]
    split
    · rename_i taken
      have passed : entry.valid = false ∨ entry.ip ≠ other := taken.imp_right fun same again =>
        different (again.symm.trans same)
      rw [lookup_pass (Or.inr different.symm), lookup_pass passed]
    · by_cases hit : entry.valid = true ∧ entry.ip = other
      · rw [lookup_hit hit.1 hit.2, lookup_hit hit.1 hit.2]
      · have passed : entry.valid = false ∨ entry.ip ≠ other := by
          rcases Bool.eq_false_or_eq_true entry.valid with valid | free
          · exact Or.inr fun same => hit ⟨valid, same⟩
          · exact Or.inl free
        rw [lookup_pass passed, lookup_pass passed, ih]

/-- The address resolves to the answer, or it is unknown to a cache without a free entry,
which stays as it is. -/
theorem lookup_updateEntry_same (ip mac : List UInt8) (cache : List ArpEntry) :
    lookup (updateEntry ip mac cache) ip = some mac ∧
    ¬ (lookup cache ip = none ∧ ∀ entry ∈ cache, entry.valid = true) ∨
      updateEntry ip mac cache = cache ∧ lookup cache ip = none ∧ ∀ entry ∈ cache, entry.valid = true := by
  induction cache with
  | nil => exact Or.inr ⟨rfl, rfl, nofun⟩
  | cons entry rest ih =>
    rw [updateEntry]
    split
    · rename_i taken
      refine Or.inl ⟨lookup_hit rfl rfl, fun ⟨unknown, full⟩ => ?_⟩
      have valid := full entry List.mem_cons_self
      have same := taken.resolve_left (by rw [valid]; nofun)
      rw [lookup_hit valid same] at unknown
      cases unknown
    · rename_i kept
      obtain ⟨valid, different⟩ := not_or.mp kept
      rw [lookup_pass (Or.inr different), lookup_pass (Or.inr different), List.forall_mem_cons]
      rcases ih with ⟨found, room⟩ | ⟨unchanged, unknown, full⟩
      · exact Or.inl ⟨found, fun ⟨unknown, full⟩ => room ⟨unknown, full.2⟩⟩
      · exact Or.inr ⟨by rw [unchanged], unknown, by simpa using valid, full⟩

/-! ## Every history -/

/-- A reply that comes in a frame. -/
theorem reply_updates {data : List UInt8} (allocated : Bool) (net : Net) (whole : 32 ≤ data.length)
    (arp : be16 data 12 = 0x0806)
    (reply : be16 data 20 = 2) : netHandlePacket allocated net data data.length =
      some ({ arpCacheUpdate net ((data.drop 28).take 4) ((data.drop 22).take 6) with arpReceivedFlag := true },
        none) := by
  have long : ¬ data.length < ethHeader := by
    unfold ethHeader
    omega
  unfold netHandlePacket handleArp arpLearn
  rw [if_neg long, readBe16_inside (by omega), Option.bind_eq_bind, Option.bind_some, if_pos arp,
    readBe16_inside (by omega),
    Option.bind_eq_bind, Option.bind_some, if_neg (by rw [reply]; decide), Option.bind_some, if_pos reply,
    readBytes_inside (by omega), Option.bind_some, readBytes_inside (by omega), Option.bind_some]

theorem heard_append (net : Net) (history : List (List UInt8 × List UInt8)) (ip mac : List UInt8) :
    heard net (history ++ [(ip, mac)]) = arpCacheUpdate (heard net history) ip mac := by
  unfold heard
  rw [List.foldl_append]
  rfl

theorem lastMac_append (history : List (List UInt8 × List UInt8)) (ip mac other : List UInt8) :
    lastMac (history ++ [(ip, mac)]) other = if ip = other then some mac else lastMac history other := by
  unfold lastMac
  rw [List.reverse_append, List.reverse_singleton, List.singleton_append]
  split
  · rename_i same
    rw [List.find?_cons_of_pos (by simpa using same)]
    rfl
  · rename_i different
    rw [List.find?_cons_of_neg (by simpa using different)]

/-- An address that resolves does so to its last answer. -/
theorem heard_last (net : Net) (history : List (List UInt8 × List UInt8)) {found : List UInt8}
    (resolves : arpLookup (heard net history) other = some found) : lastMac history other = some found := by
  induction history using List.reverseRecOn generalizing found with
  | nil => cases resolves
  | append_singleton history reply ih =>
    obtain ⟨ip, mac⟩ := reply
    rw [heard_append] at resolves
    rw [lastMac_append]
    split
    · rename_i same
      subst same
      rcases lookup_updateEntry_same ip mac (heard net history).arpCache with
        ⟨answered, -⟩ | ⟨unchanged, unknown, -⟩
      · exact answered.symm.trans resolves
      · have none : lookup (updateEntry ip mac (heard net history).arpCache) ip = none := by rw [unchanged, unknown]
        cases none.symm.trans resolves
    · rename_i different
      exact ih ((lookup_updateEntry_other (Ne.symm different)).symm.trans resolves)

/-- What the cache answers right after a reply, whatever came before. -/
theorem cache_after_reply (net : Net) (history : List (List UInt8 × List UInt8)) (ip mac : List UInt8) :
    (arpLookup (heard net history) ip ≠ none ∨ ¬ Full (heard net history) →
      arpLookup (arpCacheUpdate (heard net history) ip mac) ip = some mac) ∧
    (arpLookup (heard net history) ip = none → Full (heard net history) →
      arpCacheUpdate (heard net history) ip mac = heard net history) ∧
    (∀ other, other ≠ ip → arpLookup (arpCacheUpdate (heard net history) ip mac) other =
    arpLookup (heard net history) other) ∧
    ∀ other found, arpLookup (arpCacheUpdate (heard net history) ip mac) other = some found →
      lastMac (history ++ [(ip, mac)]) other = some found := by
  have outcome := lookup_updateEntry_same ip mac (heard net history).arpCache
  refine ⟨fun room => ?_, fun unknown full => ?_, fun other different => lookup_updateEntry_other different,
    fun other found resolves => ?_⟩
  · rcases outcome with ⟨answered, -⟩ | ⟨-, unknown, full⟩
    · exact answered
    · exact absurd full (room.resolve_left (not_not.mpr unknown))
  · rcases outcome with ⟨-, room⟩ | ⟨unchanged, -⟩
    · exact absurd ⟨unknown, full⟩ room
    · unfold arpCacheUpdate
      rw [unchanged]
  · rw [← heard_append] at resolves
    exact heard_last net _ resolves

end

/-- Replies of sixteen hosts, and nothing else known. -/
def sixteenHosts : List (List UInt8 × List UInt8) :=
  (List.range 16).map fun i => ([10, 0, 2, UInt8.ofNat i], [1, 2, 3, 4, 5, UInt8.ofNat i])

def deaf : Net := ⟨Vector.replicate 6 0x52, [], false, false, false, [], 0x4D4F, 53123⟩

/-- The reply of a seventeenth host is not remembered. -/
theorem seventeenth_forgotten : ¬ ∀ (net : Net) (history : List (List UInt8 × List UInt8)) (ip mac : List UInt8),
    arpLookup (arpCacheUpdate (heard net history) ip mac) ip = some mac := by
  intro all
  have unknown : arpLookup (arpCacheUpdate (heard deaf sixteenHosts) [10, 0, 2, 16] [1, 2, 3, 4, 5, 6]) [10,
      0, 2, 16] = none := by
    decide +kernel
  cases unknown.symm.trans (all deaf sixteenHosts [10, 0, 2, 16] [1, 2, 3, 4, 5, 6])

end MeowMeowOS.ArpCache
