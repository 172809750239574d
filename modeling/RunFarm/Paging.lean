import Mathlib.Data.List.Basic
import Mathlib.Data.Set.Basic
import Mathlib.Order.Basic

/-! A set of keys that is read page by page, in ascending order, while others add to it. Each page
but the last names a token for the next, and a token stands for the key the page ended with. -/
set_option autoImplicit false

namespace Paging

structure Page (κ τ : Type) where
  keys : List κ
  more : Bool
  next : Option τ
  deriving DecidableEq, Repr

/-- The pages from the `n`th request on, as one list, with the number of the last request. -/
def collect {κ τ : Type} (ask : Nat → Option τ → Page κ τ) :
    Nat → Nat → Option τ → Option (List κ × Nat)
  | 0, _, _ => none
  | fuel + 1, n, token =>
    let page := ask n token
    if page.more then
      (collect ask fuel (n + 1) page.next).map fun rest => (page.keys ++ rest.1, rest.2)
    else some (page.keys, n)

def Grows {κ : Type} (present : Nat → Set κ) : Prop := ∀ n, present n ⊆ present (n + 1)

theorem Grows.mono {κ : Type} {present : Nat → Set κ} (h : Grows present) {m n : Nat}
    (hle : m ≤ n) : present m ⊆ present n := by
  induction hle with
  | refl => exact Set.Subset.rfl
  | step _ ih => exact ih.trans (h _)

variable {κ τ : Type} [LinearOrder κ]

def After (pos : Option κ) (k : κ) : Prop := ∀ p ∈ pos, p < k

/-- What a page is of the keys that are present when it is asked for. -/
structure Answers (stands : τ → κ) (issued : Set τ) (present : Set κ) (pos : Option κ)
    (page : Page κ τ) : Prop where
  ascending : page.keys.Pairwise (· < ·)
  sound : ∀ k ∈ page.keys, k ∈ present ∧ After pos k
  complete : ∀ k ∈ present, After pos k →
    k ∈ page.keys ∨ page.more = true ∧ ∀ last ∈ page.keys.getLast?, last < k
  next : page.more = true → ∃ t ∈ issued, page.next = some t ∧ page.keys.getLast? = some (stands t)

/-- The requests are answered, each from what is present then. -/
def Serves (stands : τ → κ) (issued : Set τ) (present : Nat → Set κ)
    (ask : Nat → Option τ → Page κ τ) : Prop :=
  ∀ n token, (∀ t ∈ token, t ∈ issued) →
    Answers stands issued (present n) (token.map stands) (ask n token)

/-- The keys that were read from the `n`th request to the `last`. -/
structure Read (present : Nat → Set κ) (n : Nat) (pos : Option κ) (keys : List κ) (last : Nat) :
    Prop where
  le : n ≤ last
  ascending : keys.Pairwise (· < ·)
  sound : ∀ k ∈ keys, k ∈ present last ∧ After pos k
  complete : ∀ k ∈ present n, After pos k → k ∈ keys

variable {stands : τ → κ} {issued : Set τ} {present : Nat → Set κ}
  {ask : Nat → Option τ → Page κ τ}

theorem le_getLast {keys : List κ} (h : keys.Pairwise (· < ·)) {last : κ}
    (hlast : keys.getLast? = some last) : ∀ k ∈ keys, k ≤ last := by
  intro k hk
  obtain ⟨init, rfl⟩ := List.getLast?_eq_some_iff.mp hlast
  rcases List.mem_append.mp hk with hk | hk
  · exact le_of_lt ((List.pairwise_append.mp h).2.2 k hk last (List.mem_singleton_self last))
  · exact le_of_eq (List.mem_singleton.mp hk)

theorem after_of_lt {pos : Option κ} {p k : κ} (h : After pos p) (hlt : p ≤ k) : After pos k :=
  fun q hq => lt_of_lt_of_le (h q hq) hlt

theorem Read.page {n : Nat} {pos : Option κ} {page : Page κ τ} {t : τ}
    (hgrows : Grows present) (h : Answers stands issued (present n) pos page)
    (hlast : page.keys.getLast? = some (stands t)) {keys : List κ} {last : Nat}
    (hrest : Read present (n + 1) (some (stands t)) keys last) :
    Read present n pos (page.keys ++ keys) last where
  le := Nat.le_of_succ_le hrest.le
  ascending := by
    refine List.pairwise_append.mpr ⟨h.ascending, hrest.ascending, fun k hk k' hk' => ?_⟩
    exact lt_of_le_of_lt (le_getLast h.ascending hlast k hk) ((hrest.sound k' hk').2 _ rfl)
  sound k hk := by
    rcases List.mem_append.mp hk with hk | hk
    · exact ⟨hgrows.mono (Nat.le_of_succ_le hrest.le) (h.sound k hk).1, (h.sound k hk).2⟩
    · obtain ⟨hpresent, hafter⟩ := hrest.sound k hk
      have hstands := (h.sound _ (List.mem_of_getLast? hlast)).2
      exact ⟨hpresent, after_of_lt hstands (le_of_lt (hafter _ rfl))⟩
  complete k hk hafter := by
    rcases h.complete k hk hafter with hmem | ⟨_, hlt⟩
    · exact List.mem_append_left keys hmem
    · refine List.mem_append_right page.keys (hrest.complete k (hgrows n hk) fun p hp => ?_)
      cases hp
      exact hlt _ hlast

/-- Whatever is added meanwhile, the list is ascending, has every key that was there at the first
request and none that is not there at the last. -/
theorem read_of_collect (hgrows : Grows present) (hask : Serves stands issued present ask)
    {fuel n : Nat} {token : Option τ} (htoken : ∀ t ∈ token, t ∈ issued) {keys : List κ}
    {last : Nat} (h : collect ask fuel n token = some (keys, last)) :
    Read present n (token.map stands) keys last := by
  induction fuel generalizing n token keys with
  | zero => cases h
  | succ fuel ih =>
    have hpage := hask n token htoken
    rw [collect] at h
    by_cases hmore : (ask n token).more = true
    · rw [if_pos hmore] at h
      obtain ⟨⟨rest, last'⟩, hrest, heq⟩ := Option.map_eq_some_iff.mp h
      cases heq
      obtain ⟨t, ht, hnext, hlast⟩ := hpage.next hmore
      rw [hnext] at hrest
      have htoken' : ∀ t' ∈ some t, t' ∈ issued := fun t' ht' => Option.some.inj ht' ▸ ht
      exact Read.page hgrows hpage hlast (ih htoken' hrest)
    · rw [if_neg hmore] at h
      cases h
      exact ⟨Nat.le_refl _, hpage.ascending, hpage.sound, fun k hk hafter =>
        (hpage.complete k hk hafter).resolve_right fun hand => hmore hand.1⟩

def Bounded (present : Nat → Set κ) (bound : Nat) : Prop :=
  ∀ n (keys : List κ), keys.Nodup → (∀ k ∈ keys, k ∈ present n) → keys.length ≤ bound

theorem collect_isSome (hgrows : Grows present) (hask : Serves stands issued present ask)
    {bound : Nat} (hbound : Bounded present bound) {fuel n : Nat} {token : Option τ}
    (htoken : ∀ t ∈ token, t ∈ issued) (seen : List κ) (hseen : seen.Pairwise (· < ·))
    (hpresent : ∀ k ∈ seen, k ∈ present n)
    (hpast : ∀ k ∈ seen, ∀ k', After (token.map stands) k' → k < k')
    (hfuel : bound < fuel + seen.length) : (collect ask fuel n token).isSome = true := by
  induction fuel generalizing n token seen with
  | zero =>
    have hlen := hbound n seen (hseen.imp ne_of_lt) hpresent
    omega
  | succ fuel ih =>
    have hpage := hask n token htoken
    rw [collect]
    by_cases hmore : (ask n token).more = true
    · obtain ⟨t, ht, hnext, hlast⟩ := hpage.next hmore
      have hne : 0 < (ask n token).keys.length :=
        List.length_pos_of_mem (List.mem_of_getLast? hlast)
      have hpages : (seen ++ (ask n token).keys).Pairwise (· < ·) :=
        List.pairwise_append.mpr ⟨hseen, hpage.ascending,
          fun k hk k' hk' => hpast k hk k' (hpage.sound k' hk').2⟩
      have hrest := ih (n := n + 1) (fun t' (ht' : t' ∈ some t) => Option.some.inj ht' ▸ ht)
        (seen ++ (ask n token).keys) hpages (fun k hk => by
          rcases List.mem_append.mp hk with hk | hk
          · exact hgrows n (hpresent k hk)
          · exact hgrows n (hpage.sound k hk).1)
        (fun k hk k' hafter => by
          have hlt := hafter _ rfl
          rcases List.mem_append.mp hk with hk | hk
          · exact lt_trans (hpast k hk _ (hpage.sound _ (List.mem_of_getLast? hlast)).2) hlt
          · exact lt_of_le_of_lt (le_getLast hpage.ascending hlast k hk) hlt)
        (by rw [List.length_append]; omega)
      simp [hmore, hnext, hrest]
    · simp [hmore]

/-- The first keys of an ascending list, at most `limit` of them. -/
def pageOf (issue : κ → τ) (limit : Nat) (keys : List κ) : Page κ τ where
  keys := keys.take limit
  more := limit < keys.length
  next := (keys.take limit).getLast?.map issue

omit [LinearOrder κ] in
theorem getLast?_take {keys : List κ} {limit : Nat} (hlimit : 0 < limit)
    (h : limit < keys.length) : ∃ last, (keys.take limit).getLast? = some last := by
  refine Option.isSome_iff_exists.mp ?_
  rw [List.getLast?_isSome]
  exact List.ne_nil_of_length_pos (by rw [List.length_take]; omega)

theorem answers_pageOf {issue : κ → τ} (hissue : ∀ k, stands (issue k) = k) {limit : Nat}
    (hlimit : 0 < limit) {keys : List κ} (hkeys : keys.Pairwise (· < ·)) {here : Set κ}
    {pos : Option κ} (hmem : ∀ k, k ∈ keys ↔ k ∈ here ∧ After pos k) :
    Answers stands (Set.range issue) here pos (pageOf issue limit keys) where
  ascending := hkeys.sublist (List.take_sublist limit keys)
  sound k hk := (hmem k).mp (List.mem_of_mem_take hk)
  complete k hk hafter := by
    have hcut : keys.take limit ++ keys.drop limit = keys := List.take_append_drop limit keys
    rcases List.mem_append.mp (hcut ▸ (hmem k).mpr ⟨hk, hafter⟩) with hfirst | hrest
    · exact .inl hfirst
    · refine .inr ⟨decide_eq_true ?_, fun last hlast => ?_⟩
      · have hpos := List.length_pos_of_mem hrest
        rw [List.length_drop] at hpos
        omega
      · rw [← hcut, List.pairwise_append] at hkeys
        exact hkeys.2.2 last (List.mem_of_getLast? hlast) k hrest
  next hmore := by
    obtain ⟨last, hlast⟩ := getLast?_take hlimit (of_decide_eq_true hmore)
    exact ⟨issue last, ⟨last, rfl⟩, by simp [pageOf, hlast], by rw [hissue]; exact hlast⟩

end Paging
