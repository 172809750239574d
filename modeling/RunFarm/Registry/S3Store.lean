import RunFarm.Paging
import RunFarm.Registry.EventOrder
import RunFarm.Registry.Restart

/-! `S3BlobStore`: a `BlobStore` under a prefix of a bucket, which others write to as well. A list
takes as many requests as there are pages, and the bucket may grow between any two. -/
set_option autoImplicit false

namespace RunFarm
open Files Python Paging

structure S3BlobStore where
  keyPrefix : String
  deriving DecidableEq, Repr

namespace S3BlobStore

variable {α : Type} (s3 : S3BlobStore)

def full (key : String) : String :=
  if s3.keyPrefix = "" then key else s3.keyPrefix ++ "/" ++ key

/-- `get`, where the object is there or the code of the error is `NoSuchKey`. -/
def get (bucket : Dict String α) (key : String) : Option α := bucket.get (s3.full key)

def put (bucket : Dict String α) (key : String) (data : α) : Dict String α :=
  bucket.set (s3.full key) data

def isStored (bucket : Dict String α) (key : String) : Bool := (bucket.get (s3.full key)).isSome

def cut : Nat := if s3.keyPrefix = "" then 0 else s3.keyPrefix.length + 1

/-- `o["Key"][cut:]`. -/
def relative (key : String) : String := String.ofList (key.toList.drop s3.cut)

/-- The loop of `list`, from its `n`th request on; `listObjects` is `list_objects_v2`. It also
gives the number of the last request. -/
def listFrom (listObjects : Nat → String → Option String → Page String String) (full : String) :
    Nat → Nat → Option String → List String → Option (List String × Nat)
  | 0, _, _, _ => none
  | fuel + 1, n, token, out =>
    let resp := listObjects n full (token.filter (· ≠ ""))
    let out := out ++ resp.keys.map s3.relative
    if !resp.more then some (out, n) else listFrom listObjects full fuel (n + 1) resp.next out

def list (listObjects : Nat → String → Option String → Page String String) (fuel : Nat)
    (listed : String) : Option (List String × Nat) :=
  s3.listFrom listObjects (s3.full listed) fuel 0 none []

/-- `_read_json_blobs`; the keys are asked for one after the other, from the `n`th request on. -/
def readBlobs (bucket : Nat → Dict String α) : Nat → List String → List α
  | _, [] => []
  | n, key :: keys => (s3.get (bucket n) key).toList ++ readBlobs bucket (n + 1) keys

/-- `_read_json_blobs(store, sorted(store.list(listed)))`. -/
def readSorted (listObjects : Nat → String → Option String → Page String String)
    (bucket : Nat → Dict String α) (fuel : Nat) (listed : String) : Option (List α × Nat) :=
  (s3.list listObjects fuel listed).map fun (keys, last) =>
    (s3.readBlobs bucket (last + 1) keys.mergeSort, last)

/-- What stands before a key of the store in the key of the bucket. -/
def root : List Char := if s3.keyPrefix = "" then [] else s3.keyPrefix.toList ++ ['/']

theorem toList_full (key : String) : (s3.full key).toList = s3.root ++ key.toList := by
  unfold full root
  split <;> simp

theorem length_root : s3.root.length = s3.cut := by
  unfold root cut
  split <;> simp [String.length_toList]

theorem relative_full (key : String) : s3.relative (s3.full key) = key := by
  rw [relative, toList_full, ← length_root, List.drop_left, String.ofList_toList]

theorem full_injective : Function.Injective s3.full :=
  Function.LeftInverse.injective s3.relative_full

theorem full_prefix_iff {listed key : String} :
    (s3.full listed).toList <+: (s3.full key).toList ↔ listed.toList <+: key.toList := by
  rw [toList_full, toList_full, List.prefix_append_right_inj]

theorem full_of_prefix {listed key : String} (h : (s3.full listed).toList <+: key.toList) :
    key = s3.full (s3.relative key) := by
  obtain ⟨rest, hrest⟩ := h
  rw [← String.toList_inj, toList_full, relative, String.toList_ofList, ← hrest, toList_full,
    List.append_assoc, ← length_root, List.drop_left]

end S3BlobStore

inductive Write (α : Type) where
  | own (key : String) (data : α)
  | foreign (key : String) (data : α)

section
variable {α : Type} (s3 : S3BlobStore)

def Write.toBucket (b : Dict String α) : Write α → Dict String α
  | .own key data => s3.put b key data
  | .foreign key data => b.set key data

/-- `MemoryBlobStore.put`. -/
def Write.toMemory (w : Dict String α) : Write α → Dict String α
  | .own key data => w.set key data
  | .foreign _ _ => w

def Write.Apart : Write α → Prop
  | .own _ _ => True
  | .foreign key _ => ∀ own, s3.full own ≠ key

def bucketAfter (b : Dict String α) (writes : List (Write α)) : Dict String α :=
  writes.foldl (Write.toBucket s3) b

def memoryAfter (w : Dict String α) (writes : List (Write α)) : Dict String α :=
  writes.foldl Write.toMemory w

def Represents (w b : Dict String α) : Prop := ∀ key, s3.get b key = w.get key

variable {s3} {w b : Dict String α}

theorem represents_after (h : Represents s3 w b) (writes : List (Write α))
    (hapart : ∀ x ∈ writes, x.Apart s3) :
    Represents s3 (memoryAfter w writes) (bucketAfter s3 b writes) := by
  induction writes generalizing w b with
  | nil => exact h
  | cons x writes ih =>
    refine ih (fun key => ?_) fun y hy => hapart y (List.mem_cons_of_mem x hy)
    have hx := hapart x (List.mem_cons_self ..)
    cases x with
    | own own data =>
      have hkey : s3.full key = s3.full own ↔ key = own := s3.full_injective.eq_iff
      have hsame := h key
      simp only [S3BlobStore.get] at hsame
      simp [Write.toBucket, Write.toMemory, S3BlobStore.put, S3BlobStore.get, hkey, hsame]
    | foreign other data =>
      have hne : s3.full key ≠ other := hx key
      have hsame := h key
      simp only [S3BlobStore.get] at hsame
      simp [Write.toBucket, Write.toMemory, S3BlobStore.get, hne, hsame]

theorem isSome_bucketAfter {key : String} (h : (b.get key).isSome = true)
    (writes : List (Write α)) : ((bucketAfter s3 b writes).get key).isSome = true := by
  induction writes generalizing b with
  | nil => exact h
  | cons x writes ih =>
    refine ih ?_
    cases x <;>
    · simp only [Write.toBucket, S3BlobStore.put, Dict.get_set]
      split
      · rfl
      · exact h

variable (s3) in
theorem length_bucketAfter (b : Dict String α) (writes : List (Write α)) :
    (bucketAfter s3 b writes).items.length ≤ b.items.length + writes.length := by
  induction writes generalizing b with
  | nil => exact Nat.le_refl _
  | cons x writes ih =>
    have hstep : (Write.toBucket s3 b x).items.length ≤ b.items.length + 1 := by
      cases x <;> exact b.length_set_le _ _
    have hrest := ih (Write.toBucket s3 b x)
    rw [List.length_cons]
    change (bucketAfter s3 (Write.toBucket s3 b x) writes).items.length ≤ _
    omega

theorem mem_memoryAfter {key : String} {data : α} {writes : List (Write α)}
    (h : (memoryAfter w writes).get key = some data) :
    w.get key = some data ∨ .own key data ∈ writes := by
  induction writes generalizing w with
  | nil => exact .inl h
  | cons x writes ih =>
    rcases ih h with hget | hmem
    · cases x with
      | own own own_data =>
        simp only [Write.toMemory, Dict.get_set] at hget
        split at hget
        · rename_i heq
          cases hget
          exact .inr (heq ▸ List.mem_cons_self ..)
        · exact .inl hget
      | foreign other data => exact .inl hget
    · exact .inr (List.mem_cons_of_mem x hmem)

end

/-- What a history has besides the store: what was there before it, the writes of all, how many of
them are done at each request, and the service that lists the bucket. -/
structure History (α : Type) where
  s3 : S3BlobStore
  memory : Dict String α
  bucket : Dict String α
  writes : List (Write α)
  done : Nat → Nat
  listObjects : Nat → String → Option String → Page String String

namespace History

variable {α : Type} (H : History α)

def writesAt (n : Nat) : List (Write α) := H.writes.take (H.done n)

def bucketAt (n : Nat) : Dict String α := bucketAfter H.s3 H.bucket (H.writesAt n)

/-- The `MemoryBlobStore` with the same puts. -/
def memoryAt (n : Nat) : Dict String α := memoryAfter H.memory (H.writesAt n)

def present (full : String) (n : Nat) : Set String :=
  { key | full.toList <+: key.toList ∧ ((H.bucketAt n).get key).isSome = true }

/-- What `list_objects_v2` is relied on for: pages in ascending order, each of what is there when
it is asked for, and with a token that is no empty string where there is more. -/
structure Listing (full stands issued) : Prop where
  serves : Paging.Serves stands issued (H.present full) fun n token => H.listObjects n full token
  tokens : "" ∉ (issued : Set String)

/-- No two puts of one key under the prefix differ in what they put. -/
structure Settled (listed : String) : Prop where
  written : ∀ key data data', listed.toList <+: key.toList → .own key data ∈ H.writes →
    .own key data' ∈ H.writes → data = data'
  before : ∀ key data data', listed.toList <+: key.toList → H.memory.get key = some data →
    .own key data' ∈ H.writes → data = data'

structure Sound : Prop where
  represents : Represents H.s3 H.memory H.bucket
  apart : ∀ x ∈ H.writes, x.Apart H.s3
  forward : Monotone H.done

variable {H}

theorem writesAt_mono (h : H.Sound) {m n : Nat} (hle : m ≤ n) :
    ∃ later, H.writesAt n = H.writesAt m ++ later := by
  obtain ⟨later, hlater⟩ := List.take_prefix_take_left (l := H.writes) (h.forward hle)
  exact ⟨later, hlater.symm⟩

theorem get_bucketAt (h : H.Sound) (n : Nat) (key : String) :
    H.s3.get (H.bucketAt n) key = (H.memoryAt n).get key :=
  represents_after h.represents _ (fun x hx => h.apart x (List.mem_of_mem_take hx)) key

theorem grows (h : H.Sound) (full : String) : Paging.Grows (H.present full) := by
  rintro n key ⟨hunder, hsome⟩
  obtain ⟨later, hlater⟩ := writesAt_mono h (Nat.le_succ n)
  refine ⟨hunder, ?_⟩
  rw [bucketAt, hlater, bucketAfter, List.foldl_append]
  exact isSome_bucketAfter hsome later

theorem bounded (full : String) :
    Paging.Bounded (H.present full) (H.bucket.items.length + H.writes.length) := by
  intro n keys hnodup hmem
  have hsub : keys ⊆ (H.bucketAt n).items.map Prod.fst :=
    fun key hkey => Dict.isSome_get.mp (hmem key hkey).2
  have hkeys := (hnodup.subperm hsub).length_le
  rw [List.length_map] at hkeys
  have hbucket := length_bucketAfter H.s3 H.bucket (H.writesAt n)
  have hwrites : (H.writesAt n).length ≤ H.writes.length := List.length_take_le' ..
  unfold bucketAt at hkeys
  omega

/-- The requests of a list, with the token that `if token` lets through. -/
def ask (H : History α) (full : String) (n : Nat) (token : Option String) : Page String String :=
  H.listObjects n full (token.filter (· ≠ ""))

theorem Listing.asks {full : String} {stands : String → String} {issued : Set String}
    (h : H.Listing full stands issued) :
    Paging.Serves stands issued (H.present full) (H.ask full) := by
  intro n token htoken
  have hkept : token.filter (· ≠ "") = token := by
    cases token with
    | none => rfl
    | some t =>
      have hne : t ≠ "" := fun heq => h.tokens (heq ▸ htoken t rfl)
      simp [Option.filter, hne]
  rw [ask, hkept]
  exact h.serves n token htoken

theorem listFrom_collect (full : String) (fuel n : Nat) (token : Option String)
    (out : List String) : H.s3.listFrom H.listObjects full fuel n token out =
      (collect (H.ask full) fuel n token).map fun read =>
        (out ++ read.1.map H.s3.relative, read.2) := by
  induction fuel generalizing n token out with
  | zero => rfl
  | succ fuel ih =>
    rw [S3BlobStore.listFrom, collect]
    change (if !(H.ask full n token).more then _ else _) = _
    by_cases hmore : (H.ask full n token).more = true
    · rw [hmore, if_neg (by decide), if_pos rfl, Option.map_map]
      refine (ih _ _ _).trans (congrArg (Option.map · _) ?_)
      funext read
      simp [ask]
    · rw [Bool.not_eq_true] at hmore
      rw [hmore]
      rfl

/-- The keys that a list gives: none twice, every one that was there at its first request, and
none that is not there at its last. -/
structure Listed (H : History α) (listed : String) (keys : List String) (last : Nat) : Prop where
  nodup : keys.Nodup
  sound : ∀ key ∈ keys, listed.toList <+: key.toList ∧ ((H.memoryAt last).get key).isSome = true
  complete : ∀ key, listed.toList <+: key.toList → ((H.memoryAt 0).get key).isSome = true →
    key ∈ keys

theorem mem_present (h : H.Sound) {listed key : String} {n : Nat} :
    H.s3.full key ∈ H.present (H.s3.full listed) n ↔
      listed.toList <+: key.toList ∧ ((H.memoryAt n).get key).isSome = true := by
  rw [← get_bucketAt h]
  exact and_congr_left' H.s3.full_prefix_iff

theorem listed_of_read (h : H.Sound) {listed : String} {keys : List String} {last : Nat}
    (hread : Paging.Read (H.present (H.s3.full listed)) 0 none keys last) :
    Listed H listed (keys.map H.s3.relative) last where
  nodup := by
    refine List.Nodup.map_on (fun key hkey key' hkey' heq => ?_) (hread.ascending.imp ne_of_lt)
    rw [H.s3.full_of_prefix (hread.sound key hkey).1.1,
      H.s3.full_of_prefix (hread.sound key' hkey').1.1, heq]
  sound key hkey := by
    obtain ⟨stored, hstored, rfl⟩ := List.mem_map.mp hkey
    have hpresent := (hread.sound stored hstored).1
    rw [H.s3.full_of_prefix hpresent.1] at hpresent
    exact (mem_present h).mp hpresent
  complete key hunder hsome := by
    have hmem := hread.complete _ ((mem_present h).mpr ⟨hunder, hsome⟩) fun _ hp => nomatch hp
    exact List.mem_map.mpr ⟨_, hmem, H.s3.relative_full key⟩

theorem list_listed (h : H.Sound) {listed : String} {stands : String → String}
    {issued : Set String} (hlisting : H.Listing (H.s3.full listed) stands issued) {fuel : Nat}
    (hfuel : H.bucket.items.length + H.writes.length < fuel) :
    ∃ keys last, H.s3.list H.listObjects fuel listed = some (keys, last) ∧
      Listed H listed keys last := by
  have hgrows := grows h (H.s3.full listed)
  have hnone : ∀ t ∈ (none : Option String), t ∈ issued := fun _ ht => nomatch ht
  have hends := collect_isSome hgrows hlisting.asks (bounded _) (n := 0) hnone
    [] List.Pairwise.nil (fun _ hk => nomatch hk) (fun _ hk => nomatch hk)
    (by simpa using hfuel)
  obtain ⟨⟨keys, last⟩, hcollect⟩ := Option.isSome_iff_exists.mp hends
  refine ⟨keys.map H.s3.relative, last, ?_,
    listed_of_read h (read_of_collect hgrows hlisting.asks hnone hcollect)⟩
  rw [S3BlobStore.list, listFrom_collect, hcollect]
  rfl

theorem memoryAt_settled (h : H.Sound) {listed : String} (hsettled : H.Settled listed)
    {key : String} (hunder : listed.toList <+: key.toList) {m n : Nat} (hle : m ≤ n) {data : α}
    (hget : (H.memoryAt m).get key = some data) : (H.memoryAt n).get key = some data := by
  have hthere := (mem_present h).mpr ⟨hunder, Option.isSome_of_eq_some hget⟩
  have hsome := ((mem_present h).mp ((grows h (H.s3.full listed)).mono hle hthere)).2
  obtain ⟨data', hdata'⟩ := Option.isSome_iff_exists.mp hsome
  rw [hdata']
  have hwrites (k : Nat) (x : Write α) (hx : x ∈ H.writesAt k) : x ∈ H.writes :=
    List.mem_of_mem_take hx
  rcases mem_memoryAfter hget with hold | hput <;> rcases mem_memoryAfter hdata' with hold' | hput'
  · exact hold'.symm.trans hold
  · exact congrArg some (hsettled.before key data data' hunder hold (hwrites n _ hput')).symm
  · exact congrArg some (hsettled.before key data' data hunder hold' (hwrites m _ hput))
  · exact congrArg some
      (hsettled.written key data' data hunder (hwrites n _ hput') (hwrites m _ hput))

theorem readBlobs_eq (h : H.Sound) {listed : String} (hsettled : H.Settled listed) {last n : Nat}
    (hle : last ≤ n) {keys : List String}
    (hkeys : ∀ key ∈ keys, listed.toList <+: key.toList ∧
      ((H.memoryAt last).get key).isSome = true) :
    H.s3.readBlobs H.bucketAt n keys = keys.filterMap (H.memoryAt last).get := by
  induction keys generalizing n with
  | nil => rfl
  | cons key keys ih =>
    obtain ⟨hunder, hsome⟩ := hkeys key (List.mem_cons_self ..)
    obtain ⟨data, hdata⟩ := Option.isSome_iff_exists.mp hsome
    have hrest := ih (Nat.le_succ_of_le hle) fun key' hkey' =>
      hkeys key' (List.mem_cons_of_mem key hkey')
    rw [S3BlobStore.readBlobs, get_bucketAt h, memoryAt_settled h hsettled hunder hle hdata, hrest,
      List.filterMap_cons_some hdata]
    rfl

end History

/-- `sorted(store.list(listed))` of a `MemoryBlobStore`. -/
def sortedKeys {α : Type} (w : Dict String α) (listed : String) : List String :=
  ((w.items.map Prod.fst).filter fun key => listed.toList.isPrefixOf key.toList).mergeSort

section
variable {α : Type} {w : Dict String α} {listed : String}

theorem ascending_mergeSort {keys : List String} (h : keys.Nodup) :
    keys.mergeSort.Pairwise (· < ·) := by
  have hsorted := @List.pairwise_mergeSort String (fun a b => decide (a ≤ b))
    (by simpa using fun _ _ _ => le_trans) (by simpa using le_total) keys
  have hnodup : keys.mergeSort.Nodup := (List.mergeSort_perm _ _).nodup_iff.mpr h
  exact (hsorted.and hnodup).imp fun hab => lt_of_le_of_ne (of_decide_eq_true hab.1) hab.2

theorem mem_sortedKeys {key : String} : key ∈ sortedKeys w listed ↔
    listed.toList <+: key.toList ∧ (w.get key).isSome = true := by
  rw [sortedKeys, (List.mergeSort_perm _ _).mem_iff, List.mem_filter, Dict.isSome_get,
    List.isPrefixOf_iff_prefix, and_comm]

theorem ascending_sortedKeys : (sortedKeys w listed).Pairwise (· < ·) :=
  ascending_mergeSort (w.nodup.filter _)

theorem sublist_of_ascending {keys keys' : List String} (h : keys.Pairwise (· < ·))
    (h' : keys'.Pairwise (· < ·)) (hsub : keys ⊆ keys') : keys.Sublist keys' :=
  List.sublist_of_subperm_of_pairwise (List.Nodup.subperm (h.imp ne_of_lt) hsub) h h'

end

def sortedRecords {α : Type} (w : Dict String α) (listed : String) : List α :=
  (sortedKeys w listed).filterMap w.get

namespace History

variable {α : Type} {H : History α}

/-- Records that were read while others wrote: in order, with all that were there at the first
request, and with none that was not there at the last request of the list. -/
theorem readSorted_between (h : H.Sound) {listed : String} {stands : String → String}
    {issued : Set String} (hlisting : H.Listing (H.s3.full listed) stands issued)
    (hsettled : H.Settled listed) {fuel : Nat}
    (hfuel : H.bucket.items.length + H.writes.length < fuel) :
    ∃ records last, H.s3.readSorted H.listObjects H.bucketAt fuel listed = some (records, last) ∧
      (sortedRecords (H.memoryAt 0) listed).Sublist records ∧
      records.Sublist (sortedRecords (H.memoryAt last) listed) := by
  obtain ⟨keys, last, hlist, hlisted⟩ := list_listed h hlisting hfuel
  have hmem (key : String) : key ∈ keys.mergeSort ↔ key ∈ keys :=
    (List.mergeSort_perm _ _).mem_iff
  have hkeys : ∀ key ∈ keys.mergeSort, listed.toList <+: key.toList ∧
      ((H.memoryAt last).get key).isSome = true := fun key hkey =>
    hlisted.sound key ((hmem key).mp hkey)
  have hascending := ascending_mergeSort hlisted.nodup
  refine ⟨_, last, by rw [S3BlobStore.readSorted, hlist]; rfl, ?_, ?_⟩ <;>
    rw [readBlobs_eq h hsettled (Nat.le_succ last) hkeys]
  · have hearly : sortedRecords (H.memoryAt 0) listed =
        (sortedKeys (H.memoryAt 0) listed).filterMap (H.memoryAt last).get := by
      refine List.filterMap_congr fun key hkey => ?_
      obtain ⟨hunder, hsome⟩ := mem_sortedKeys.mp hkey
      obtain ⟨data, hdata⟩ := Option.isSome_iff_exists.mp hsome
      rw [hdata, memoryAt_settled h hsettled hunder (Nat.zero_le last) hdata]
    rw [hearly]
    refine (sublist_of_ascending ascending_sortedKeys hascending fun key hkey => ?_).filterMap _
    obtain ⟨hunder, hsome⟩ := mem_sortedKeys.mp hkey
    exact (hmem key).mpr (hlisted.complete key hunder hsome)
  · refine (sublist_of_ascending hascending ascending_sortedKeys fun key hkey => ?_).filterMap _
    exact mem_sortedKeys.mpr (hkeys key hkey)

end History

def tokenKey (t : String) : String := String.ofList (t.toList.drop 1)

abbrev BucketService (α : Type) :=
  Dict String α → Nat → String → Option String → Page String String

def pairs {α : Type} : BucketService α := fun b _ full token =>
  pageOf ("+" ++ ·) 2 ((sortedKeys b full).filter fun key => token.all fun t => tokenKey t < key)

theorem pairs_serve {α : Type} (b : Nat → Dict String α) (full : String) :
    Paging.Serves tokenKey (Set.range ("+" ++ ·))
      (fun n => { key | full.toList <+: key.toList ∧ ((b n).get key).isSome = true })
      fun n token => pairs (b n) n full token := by
  intro n token _
  refine answers_pageOf (fun k => by simp [tokenKey]) (by decide)
    (ascending_sortedKeys.filter _) fun key => ?_
  rw [List.mem_filter, mem_sortedKeys]
  refine and_congr Iff.rfl ?_
  cases token <;> simp [Paging.After]

theorem pairs_tokens : "" ∉ Set.range (fun key : String => "+" ++ key) := by
  rintro ⟨key, hkey⟩
  have hlist := congrArg String.toList hkey
  simp at hlist

def farmBucket : S3BlobStore := ⟨"farm"⟩

variable {W C S : Type}

/-- The puts under the prefix are those of calls of `emit`, each with a uuid that is new. -/
structure Emitted (F : RunFormats S) (H : History (Stored C S)) (listed : String)
    (calls : List (Emission W C)) : Prop where
  put : ∀ key data, .own key data ∈ H.writes → listed.toList <+: key.toList →
    ∃ e ∈ calls, e.key = key ∧ (e.image F).map Stored.event = some data
  uuids : ∀ e ∈ calls, ∀ e' ∈ calls, e.uuid = e'.uuid → e = e'
  fresh : ∀ e ∈ calls, H.memory.get e.key = none

theorem settled_of_emitted {F : RunFormats S} {H : History (Stored C S)} {listed : String}
    {calls : List (Emission W C)} (h : Emitted F H listed calls) : H.Settled listed where
  written key data data' hunder hput hput' := by
    obtain ⟨e, he, hkey, hdata⟩ := h.put key data hput hunder
    obtain ⟨e', he', hkey', hdata'⟩ := h.put key data' hput' hunder
    have hsame : e = e' := h.uuids e he e' he' (Emission.uuid_of_key (hkey.trans hkey'.symm))
    rw [hsame, hdata'] at hdata
    exact (Option.some.inj hdata).symm
  before key data data' hunder hget hput := by
    obtain ⟨e, he, rfl, _⟩ := h.put key data' hput hunder
    rw [h.fresh e he] at hget
    cases hget

/-- `events` over a bucket, read at any time: the records come in the order of the keys, with all
that were there when the read began. What others emit meanwhile is there or not, and nothing else
is; and the read ends. -/
theorem live_events (F : RunFormats S) (H : History (Stored C S)) (sink : ObjectStoreEventSink)
    (name : String) (calls : List (Emission W C)) (stands : String → String)
    (issued : Set String) (h : H.Sound)
    (hlisting : H.Listing (H.s3.full (sink.place name ++ "/events/")) stands issued)
    (hemitted : Emitted F H (sink.place name ++ "/events/") calls) :
    ∃ fuel records last, H.s3.readSorted H.listObjects H.bucketAt fuel
        (sink.place name ++ "/events/") = some (records, last) ∧
      (sink.events name (H.memoryAt 0)).Sublist records ∧
      records.Sublist (sink.events name (H.memoryAt last)) := by
  obtain ⟨records, last, hread, hbetween⟩ := History.readSorted_between h hlisting
    (settled_of_emitted hemitted) (Nat.lt_succ_self _)
  exact ⟨_, records, last, hread, hbetween⟩

def lossEmission (n : Nat) : Emission Unit SampleConfig :=
  ⟨(), ⟨"runs"⟩, ⟨⟨"a"⟩, ["a"], "a"⟩, .dict [(.str "epoch", .int n)], Int64.ofNat n, n⟩

def lossPut (n : Nat) : Write (Stored SampleConfig CountArray) :=
  .own (lossEmission n).key (.event (.obj [("epoch", .int n)]))

def lossStart : List (Write (Stored SampleConfig CountArray)) :=
  [lossPut 0, .foreign "site/index" (.event .null), lossPut 1, lossPut 2]

def lossWrites : List (Write (Stored SampleConfig CountArray)) :=
  [lossPut 3, .foreign "site/feed" (.event .null), lossPut 4]

def lossHistory : History (Stored SampleConfig CountArray) where
  s3 := farmBucket
  memory := memoryAfter Dict.empty lossStart
  bucket := bucketAfter farmBucket Dict.empty lossStart
  writes := lossWrites
  done := id
  listObjects n :=
    pairs (bucketAfter farmBucket (bucketAfter farmBucket Dict.empty lossStart)
      (lossWrites.take n)) n

theorem site_apart (own key : String) : farmBucket.full own ≠ "site/" ++ key := by
  intro h
  have hlist := congrArg String.toList h
  rw [S3BlobStore.toList_full, String.toList_append] at hlist
  exact absurd (List.cons.inj hlist).1 (by decide)

theorem lossStart_apart : ∀ x ∈ lossStart, x.Apart farmBucket := by
  simp only [lossStart, List.forall_mem_cons, List.not_mem_nil, false_imp_iff, implies_true]
  exact ⟨trivial, fun own => site_apart own "index", trivial, trivial, trivial⟩

theorem lossWrites_apart : ∀ x ∈ lossWrites, x.Apart farmBucket := by
  simp only [lossWrites, List.forall_mem_cons, List.not_mem_nil, false_imp_iff, implies_true]
  exact ⟨trivial, fun own => site_apart own "feed", trivial, trivial⟩

theorem lossEmission_inj {m n : Nat} (hm : m < 5) (hn : n < 5)
    (h : (lossEmission m).uuid = (lossEmission n).uuid) : m = n := by
  have hnat := congrArg BitVec.toNat h
  simp only [lossEmission, BitVec.natCast_eq_ofNat, BitVec.toNat_ofNat] at hnat
  omega

theorem own_lossStart {key : String} {data : Stored SampleConfig CountArray}
    (h : .own key data ∈ lossStart) : ∃ n < 3, key = (lossEmission n).key := by
  simp only [lossStart, lossPut, List.mem_cons, Write.own.injEq, reduceCtorEq, List.not_mem_nil,
    false_or, or_false] at h
  obtain ⟨rfl, -⟩ | ⟨rfl, -⟩ | ⟨rfl, -⟩ := h
  exacts [⟨0, by decide, rfl⟩, ⟨1, by decide, rfl⟩, ⟨2, by decide, rfl⟩]

theorem lossHistory_emitted : Emitted (countFormats true) lossHistory "runs/a/events/"
    [lossEmission 3, lossEmission 4] where
  put key data hput _ := by
    change .own key data ∈ lossWrites at hput
    simp only [lossWrites, lossPut, List.mem_cons, Write.own.injEq, reduceCtorEq,
      List.not_mem_nil, false_or, or_false] at hput
    obtain ⟨rfl, rfl⟩ | ⟨rfl, rfl⟩ := hput
    · exact ⟨lossEmission 3, by simp, rfl, rfl⟩
    · exact ⟨lossEmission 4, by simp, rfl, rfl⟩
  uuids e he e' he' huuid := by
    simp only [List.mem_cons, List.not_mem_nil, or_false] at he he'
    obtain rfl | rfl := he <;> obtain rfl | rfl := he' <;>
      exact congrArg lossEmission (lossEmission_inj (by decide) (by decide) huuid)
  fresh e he := by
    rw [Option.eq_none_iff_forall_ne_some]
    intro data hdata
    obtain hempty | hput := mem_memoryAfter hdata
    · cases hempty
    · obtain ⟨n, hn, hkey⟩ := own_lossStart hput
      have huuid := Emission.uuid_of_key hkey
      simp only [List.mem_cons, List.not_mem_nil, or_false] at he
      obtain rfl | rfl := he <;>
      · have hsame := lossEmission_inj (by decide) (by omega) huuid
        omega

theorem lossHistory_sound : lossHistory.Sound where
  represents := represents_after (fun _ => rfl) lossStart lossStart_apart
  apart := lossWrites_apart
  forward _ _ hle := hle

theorem lossHistory_live : ∃ fuel records last,
    lossHistory.s3.readSorted lossHistory.listObjects lossHistory.bucketAt fuel
        ((⟨"runs"⟩ : ObjectStoreEventSink).place "a" ++ "/events/") = some (records, last) ∧
      ((⟨"runs"⟩ : ObjectStoreEventSink).events "a" (lossHistory.memoryAt 0)).Sublist records ∧
      records.Sublist
        ((⟨"runs"⟩ : ObjectStoreEventSink).events "a" (lossHistory.memoryAt last)) :=
  live_events (countFormats true) lossHistory ⟨"runs"⟩ "a" [lossEmission 3, lossEmission 4]
    tokenKey (Set.range ("+" ++ ·)) lossHistory_sound
    ⟨pairs_serve lossHistory.bucketAt _, pairs_tokens⟩ lossHistory_emitted

/-- A call of the store, or an object that is put outside its prefix. -/
inductive StoreCall (α : Type) where
  | get (key : String)
  | put (key : String) (data : α)
  | isStored (key : String)
  | list (listed : String)
  | foreign (key : String) (data : α)

inductive StoreAnswer (α : Type) where
  | data (found : Option α)
  | done
  | flag (there : Bool)
  | keys (ks : List String)

variable {α : Type}

/-- `MemoryBlobStore`. -/
def memoryCall (w : Dict String α) : StoreCall α → StoreAnswer α × Dict String α
  | .get key => (.data (w.get key), w)
  | .put key data => (.done, w.set key data)
  | .isStored key => (.flag (w.get key).isSome, w)
  | .list listed =>
    (.keys ((w.items.map Prod.fst).filter fun key => listed.toList.isPrefixOf key.toList), w)
  | .foreign _ _ => (.done, w)

/-- `S3BlobStore`, of a list that ends within as many requests as there are objects, and one. -/
def s3Call (s3 : S3BlobStore) (listObjects : BucketService α) (b : Dict String α) :
    StoreCall α → Option (StoreAnswer α × Dict String α)
  | .get key => some (.data (s3.get b key), b)
  | .put key data => some (.done, s3.put b key data)
  | .isStored key => some (.flag (s3.isStored b key), b)
  | .list listed =>
    (s3.list (listObjects b) (b.items.length + 1) listed).map fun read => (.keys read.1, b)
  | .foreign key data => some (.done, b.set key data)

/-- A list may come in another order. -/
def StoreAnswer.Same : StoreAnswer α → StoreAnswer α → Prop
  | .keys ks, .keys ks' => ks.Perm ks'
  | answer, answer' => answer = answer'

def StoreCall.Apart (s3 : S3BlobStore) : StoreCall α → Prop
  | .foreign key _ => ∀ own, s3.full own ≠ key
  | _ => True

def replies {D : Type} (call : D → StoreCall α → Option (StoreAnswer α × D)) :
    D → List (StoreCall α) → Option (List (StoreAnswer α) × D)
  | d, [] => some ([], d)
  | d, c :: cs => (call d c).bind fun (answer, d) =>
    (replies call d cs).map fun (rest, d) => (answer :: rest, d)

def ListsRight (s3 : S3BlobStore) (stands : String → String) (issued : Set String)
    (listObjects : BucketService α) : Prop :=
  "" ∉ issued ∧ ∀ b listed, Paging.Serves stands issued
    (fun _ => { key | (s3.full listed).toList <+: key.toList ∧ (b.get key).isSome = true })
    fun n token => listObjects b n (s3.full listed) token

section
variable {s3 : S3BlobStore} {listObjects : BucketService α} {stands : String → String}
  {issued : Set String} {w b : Dict String α}

theorem list_at_rest (hlists : ListsRight s3 stands issued listObjects) (h : Represents s3 w b)
    (listed : String) : ∃ keys last,
      s3.list (listObjects b) (b.items.length + 1) listed = some (keys, last) ∧
      keys.Perm ((w.items.map Prod.fst).filter fun key => listed.toList.isPrefixOf key.toList) := by
  let H : History α := ⟨s3, w, b, [], fun _ => 0, listObjects b⟩
  have hsound : H.Sound := ⟨h, (fun _ hx => nomatch hx), fun _ _ _ => le_rfl⟩
  have hlisting : H.Listing (s3.full listed) stands issued := ⟨hlists.2 b listed, hlists.1⟩
  obtain ⟨keys, last, hlist, hlisted⟩ := H.list_listed hsound hlisting (Nat.lt_succ_self _)
  refine ⟨keys, last, hlist, ?_⟩
  refine (List.perm_ext_iff_of_nodup hlisted.nodup (w.nodup.filter _)).mpr fun key => ?_
  rw [List.mem_filter, List.isPrefixOf_iff_prefix, ← Dict.isSome_get, and_comm]
  exact ⟨hlisted.sound key, fun hkey => hlisted.complete key hkey.1 hkey.2⟩

theorem s3Call_same (hlists : ListsRight s3 stands issued listObjects) (h : Represents s3 w b)
    {c : StoreCall α} (hapart : c.Apart s3) : ∃ answer b',
      s3Call s3 listObjects b c = some (answer, b') ∧ answer.Same (memoryCall w c).1 ∧
      Represents s3 (memoryCall w c).2 b' := by
  cases c with
  | get key => exact ⟨_, b, rfl, congrArg StoreAnswer.data (h key), h⟩
  | isStored key =>
    exact ⟨_, b, rfl, congrArg (fun o => StoreAnswer.flag (Option.isSome o)) (h key), h⟩
  | put key data =>
    exact ⟨_, _, rfl, rfl, represents_after h [.own key data]
        fun x hx => List.mem_singleton.mp hx ▸ trivial⟩
  | foreign key data =>
    exact ⟨_, _, rfl, rfl,
      represents_after h [.foreign key data]
        fun x hx => List.mem_singleton.mp hx ▸ hapart⟩
  | list listed =>
    obtain ⟨keys, last, hlist, hperm⟩ := list_at_rest hlists h listed
    exact ⟨.keys keys, b, by rw [s3Call, hlist]; rfl, hperm, h⟩

/-- Whatever is called, and whatever others put outside the prefix meanwhile, the bucket answers as
the dict does, and a list has the same keys. -/
theorem s3_refines_memory (s3 : S3BlobStore) (listObjects : BucketService α)
    (stands : String → String) (issued : Set String)
    (hlists : ListsRight s3 stands issued listObjects) (w b : Dict String α)
    (h : Represents s3 w b) (calls : List (StoreCall α)) (hapart : ∀ c ∈ calls, c.Apart s3) :
    ∃ found b' expected w', replies (s3Call s3 listObjects) b calls = some (found, b') ∧
      replies (fun w c => some (memoryCall w c)) w calls = some (expected, w') ∧
      List.Forall₂ StoreAnswer.Same found expected ∧ Represents s3 w' b' := by
  induction calls generalizing w b with
  | nil => exact ⟨[], b, [], w, rfl, rfl, .nil, h⟩
  | cons c calls ih =>
    obtain ⟨answer, b₁, hcall, hsame, hnext⟩ :=
      s3Call_same hlists h (hapart c (List.mem_cons_self ..))
    obtain ⟨found, b', expected, w', hfound, hexpected, hall, hend⟩ :=
      ih _ b₁ hnext fun c' hc' => hapart c' (List.mem_cons_of_mem c hc')
    refine ⟨answer :: found, b', _, w', ?_, ?_, .cons hsame hall, hend⟩
    · rw [replies, hcall, Option.bind_some]
      simp only [hfound, Option.map_some]
    · rw [replies, Option.bind_some]
      simp only [hexpected, Option.map_some]

end

theorem pairs_listsRight : ListsRight farmBucket tokenKey (Set.range ("+" ++ ·))
    (pairs : BucketService Nat) :=
  ⟨pairs_tokens, fun b listed => pairs_serve (fun _ => b) (farmBucket.full listed)⟩

theorem farmBucket_lists : ∃ found b' expected w',
    replies (s3Call farmBucket pairs) (Dict.empty : Dict String Nat)
      [.put "runs/a" 1, .foreign "farms/x" 2, .put "runs/b" 3, .list "runs/"] = some (found, b') ∧
    replies (fun w c => some (memoryCall w c)) (Dict.empty : Dict String Nat)
      [.put "runs/a" 1, .foreign "farms/x" 2, .put "runs/b" 3, .list "runs/"] =
        some (expected, w') ∧
    List.Forall₂ StoreAnswer.Same found expected ∧ Represents farmBucket w' b' :=
  s3_refines_memory farmBucket pairs tokenKey _ pairs_listsRight Dict.empty Dict.empty
    (fun _ => rfl) _ (by
      intro c hc
      simp only [List.mem_cons, List.not_mem_nil, or_false] at hc
      rcases hc with rfl | rfl | rfl | rfl
      · trivial
      · intro own hown
        have hlist := congrArg String.toList hown
        rw [farmBucket.toList_full] at hlist
        have hfifth := congrArg (fun cs => cs[4]?) hlist
        simp [S3BlobStore.root, farmBucket] at hfifth
      · trivial
      · trivial)

end RunFarm
