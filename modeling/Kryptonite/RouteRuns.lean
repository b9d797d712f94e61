/-
Runs of redirections, in any order and of any number of functions.

The plugins hook functions one after another and one on top of the other.  After
every such run a function enters the newest hook, each hook's original leads to
the hook before it and the first one's to the function itself, and the removal
of the patches gives the functions back.
-/
import Kryptonite.RouteMemory

namespace Kryptonite

namespace Routing

open X86 KernelPatcher Script

variable {host : Host} {functions : Set Address} {start s s' m u : Patcher}
variable {route : Route} {slot address : Address}

section Sites

variable {f target : Address} {code : Code} {size : Nat}

/-- The beginning of a function, against the text `code` from before all
redirections.  A redirected function has a target, and a number of bytes
outside of which it is as before. -/
inductive Site (host : Host) (functions : Set Address) (code : Code) (s : Patcher)
    (f : Address) : Option (Address × Nat) → Prop where
  | plain (hchain : readChain s.text f = none)
      (hsame : ∀ address, inside f longJump address = true → s.text address = code address) :
      Site host functions code s f none
  | hooked {plan : Plan} {target : Address} {size : Nat}
      (hhook : Hook host functions s f target plan) (htarget : target ≠ 0)
      (hsize : plan.size ≤ size)
      (hrest : ∀ address, inside f longJump address = true → inside f size address = false →
        s.text address = code address) :
      Site host functions code s f (some (target, size))

theorem Site.routed_none (h : Site host functions code s f none) : routed s.text f = none := by
  cases h with
  | plain hchain hsame => rw [routed, hchain, Option.filter_none]

theorem Site.routed_some (h : Site host functions code s f (some (target, size))) :
    ∃ plan : Plan, routed s.text f = some (plan.type, target) ∧ plan.size ≤ size := by
  cases h with
  | @hooked plan _ _ hhook htarget hsize hrest =>
      refine ⟨plan, ?_, hsize⟩
      rw [routed, hhook.stands.readChain hhook.fits]
      exact Option.filter_some_pos (by simpa using htarget)

theorem readChain_none_congr {text text' : Code} (h : readChain text f = none)
    (hsame : ∀ address, inside f longJump address = true → text' address = text address) :
    readChain text' f = none := by
  have hlong : longJump = 14 := rfl
  have hbytes : readBytes text' f 2 = readBytes text f 2 :=
    readBytes_congr (by decide) fun address hin => hsame address (inside_mono (by omega) hin)
  have hbyte : text' f = text f := hsame f (inside_iff.mpr (by simp [longJump]))
  rw [readChain] at h
  split at h
  · cases h
  next hindirect =>
    split at h
    · cases h
    next hrelative => rw [readChain, hbytes, hbyte, if_neg hindirect, if_neg hrelative]

/-- A site stays while nothing is written to its function and its slot. -/
theorem Site.keep {site : Option (Address × Nat)} (h : Site host functions code s f site)
    (hs : Orderly host functions s) (hf : f ∈ functions) (hshrinks : Shrinks host s s')
    (htext : ∀ address, ¬ Free host s address →
      (inside f longJump address = true ∨ ∀ g ∈ functions, inside g longJump address = false) →
      s'.text address = s.text address) :
    Site host functions code s' f site := by
  have hwindow : ∀ address, inside f longJump address = true → s'.text address = s.text address :=
    fun address hin => htext address (hs.windows f hf address hin) (.inl hin)
  cases h with
  | plain hchain hsame =>
      exact .plain (readChain_none_congr hchain hwindow)
        fun address hin => (hwindow address hin).trans (hsame address hin)
  | @hooked plan target _ hhook htarget hsize hrest =>
      have howned : ∀ slot, plan = .slotted slot → ∀ address, inside slot 8 address = true →
          ¬ Free host s' address ∧ ∀ g ∈ functions, inside g longJump address = false := by
        intro slot hplan address hin
        obtain ⟨hfree, hout⟩ := hhook.owned slot hplan address hin
        exact ⟨fun h => hfree (hshrinks.free h), hout⟩
      have hstands : plan.Stands s'.text f target := by
        refine hhook.stands.congr (fun address hin => ?_) fun slot hplan address hin => ?_
        · exact hwindow address (inside_mono Plan.size_le hin)
        · obtain ⟨hfree, hout⟩ := hhook.owned slot hplan address hin
          exact htext address hfree (.inr hout)
      refine .hooked ⟨hhook.fits, hstands, howned⟩ htarget hsize fun address hin hout => ?_
      exact (hwindow address hin).trans (hrest address hin hout)

/-- The functions do not overlap where a jump may be written. -/
def Spaced (functions : Set Address) : Prop :=
  ∀ f ∈ functions, ∀ g ∈ functions, f ≠ g → Apart f longJump g longJump

/-- A redirection leaves the other functions alone. -/
theorem Site.other {source : Address} {site : Option (Address × Nat)}
    (h : Site host functions code s f site) (hs : Orderly host functions s)
    (hspaced : Spaced functions) (hf : f ∈ functions) (hsource : source ∈ functions)
    (hne : f ≠ source) (hstep : Advances host functions source s s') :
    Site host functions code s' f site := by
  refine h.keep hs hf hstep.shrinks fun address hfree hin => hstep.text address hfree ?_
  rcases hin with hin | hout
  · exact hspaced f hf source hsource hne address hin
  · exact hout source hsource

/-- A first jump takes as many bytes as it needs. -/
theorem Site.first {org : Address} {absolute : Bool} {cell : Option Nat} {books : Books}
    (h : Site host functions code s f none) (hs : Orderly host functions s)
    (hf : f ∈ functions) (htaken : SlotTaken s slot u) (haside : Aside host u m)
    (hfar : tooFar f target = true → absolute = true) (htarget : target ≠ 0) :
    Site host functions code
      (jumped (withOrg m cell org) f target (planOf slot absolute) books) f
      (some (target, (planOf slot absolute).size)) := by
  cases h with
  | plain hchain hsame =>
      refine .hooked (jumped_hook hs hf htaken haside hfar) htarget le_rfl ?_
      intro address hin hout
      rw [jumped_text hs hf htaken haside (hs.windows f hf address hin) hout, hsame address hin]

/-- A later jump takes no bytes that were not taken before. -/
theorem Site.chain {org previous : Address} {type : JumpType} {absolute : Bool} {cell : Option Nat}
    {books : Books} (h : Site host functions code s f (some (previous, size)))
    (hs : Orderly host functions s) (hf : f ∈ functions)
    (hrouted : routed s.text f = some (type, previous))
    (htaken : SlotTaken s slot u) (hlong : type ≠ .short) (hmedium : type = .medium ↔ slot ≠ 0)
    (hfar : tooFar f target = true → absolute = true) (htarget : target ≠ 0) :
    Site host functions code
      (jumped (withOrg u cell org) f target (planOf slot absolute) books) f
      (some (target, size)) := by
  obtain ⟨plan, hplan, hsize⟩ := h.routed_some
  have htype : plan.type = type := by
    rw [hplan] at hrouted
    exact congrArg Prod.fst (Option.some.inj hrouted)
  have hfits : (planOf slot absolute).size ≤ size := by
    refine Nat.le_trans ?_ hsize
    cases plan with
    | slotted slot' =>
        have hne : slot ≠ 0 := hmedium.mp htype.symm
        rw [planOf, if_pos hne]
        exact le_rfl
    | absolute => exact Plan.size_le
    | relative => exact absurd htype.symm hlong
  cases h with
  | hooked hhook _ _ hrest =>
      refine .hooked (jumped_hook hs hf htaken .refl hfar) htarget hfits ?_
      intro address hin hout
      have hout' : inside f (planOf slot absolute).size address = false := by
        rw [← Bool.not_eq_true] at hout ⊢
        exact fun hin => hout (inside_mono hfits hin)
      rw [jumped_text hs hf htaken .refl (hs.windows f hf address hin) hout',
        hrest address hin hout]

end Sites

section Runs

variable {code : Code} {f : Address} {site : Option (Address × Nat)}

theorem absolute_of_tooFar (h : tooFar route.source route.target = true) :
    route.absolute = true := by
  simp [Route.absolute, h]

/-- A redirection without an error hooks its function. -/
theorem Outcome.hooked (h : Outcome host route s s') (hs : Orderly host functions s)
    (hf : route.source ∈ functions) (htarget : route.target ≠ 0)
    (hsite : Site host functions code s route.source site) (hcode : s'.code = .noError) :
    ∃ size, Site host functions code s' route.source (some (route.target, size)) ∧
      ∀ target n, site = some (target, n) → size = n := by
  cases h with
  | refused hslot haside horgs hrefused hbooks => exact absurd hcode hrefused
  | chain hrouted hslot hlong hmedium hbooks =>
      cases site with
      | none =>
          rw [hsite.routed_none] at hrouted
          cases hrouted
      | some found =>
          obtain ⟨chained, n⟩ := found
          obtain ⟨plan, hplan, -⟩ := hsite.routed_some
          have heq := Option.some.inj (hplan.symm.trans hrouted)
          obtain ⟨rfl, rfl⟩ := Prod.mk.inj heq
          refine ⟨n, hsite.chain hs hf hrouted hslot hlong hmedium absolute_of_tooFar htarget, ?_⟩
          rintro target size ⟨⟩
          rfl
  | first hrouted hslot habsolute haside hwrapper hbooks =>
      cases site with
      | none => exact ⟨_, hsite.first hs hf hslot haside absolute_of_tooFar htarget, nofun⟩
      | some found =>
          obtain ⟨plan, hplan, -⟩ := hsite.routed_some
          rw [hplan] at hrouted
          cases hrouted

/-- The plugins redirect one function after another; between two redirections
the error may be cleared.  `good` is what is known after each of them. -/
inductive Run (host : Host) (good : Patcher → Prop) : Patcher → List Route → Patcher → Prop where
  | done (s : Patcher) : Run host good s [] s
  | cleared {s s' : Patcher} {routes : List Route}
      (hrest : Run host good { s with code := .noError } routes s') : Run host good s routes s'
  | routed {s m s' : Patcher} {route : Route} {routes : List Route} {ret : Address}
      (hroute : routeFunctionInternal host route s = .ok ret m) (hgood : good m)
      (hrest : Run host good m routes s') : Run host good s (route :: routes) s'

/-- Every redirection of the run ended without an error. -/
abbrev Completes (host : Host) : Patcher → List Route → Patcher → Prop :=
  Run host fun s => s.code = .noError

theorem Run.append {good : Patcher → Prop} {routes more : List Route}
    (h : Run host good s routes m) (hmore : Run host good m more s') :
    Run host good s (routes ++ more) s' := by
  induction h with
  | done s => exact hmore
  | cleared hrest ih => exact .cleared (ih hmore)
  | routed hroute hgood hrest ih => exact .routed hroute hgood (ih hmore)

/-- The hooks of a function, the newest first. -/
def hooksOf (f : Address) (routes : List Route) : List Address :=
  ((routes.filter (·.source = f)).map (·.target)).reverse

theorem hooksOf_cons_self {routes : List Route} :
    hooksOf route.source (route :: routes) = hooksOf route.source routes ++ [route.target] := by
  simp [hooksOf]

theorem hooksOf_cons_ne {routes : List Route} (h : route.source ≠ f) :
    hooksOf f (route :: routes) = hooksOf f routes := by
  simp [hooksOf, h]

theorem Orderly.cleared (h : Orderly host functions s) {code : Error} :
    Orderly host functions { s with code := code } :=
  ⟨h.blank, h.windows, h.regions, h.ends, h.near⟩

theorem Site.cleared (h : Site host functions code s f site) (hs : Orderly host functions s)
    (hf : f ∈ functions) {error : Error} :
    Site host functions code { s with code := error } f site :=
  h.keep hs hf (fun _ _ hregion => hregion) fun _ _ _ => rfl

/-- What becomes of a function over a run. -/
theorem Run.sites {routes : List Route} (hspaced : Spaced functions)
    (hrun : Completes host s routes s') (hs : Orderly host functions s)
    (hroutes : ∀ route ∈ routes, route.source ∈ functions ∧ route.target ≠ 0) (hf : f ∈ functions)
    (hsite : Site host functions code s f site) :
    ∃ site', Site host functions code s' f site' ∧
      site'.map Prod.fst = (hooksOf f routes).head?.or (site.map Prod.fst) ∧
      ∀ target n, site = some (target, n) → ∃ target', site' = some (target', n) := by
  induction hrun generalizing site with
  | done s => exact ⟨site, hsite, rfl, fun target n h => ⟨target, h⟩⟩
  | cleared hrest ih => exact ih hs.cleared hroutes (hsite.cleared hs hf)
  | @routed s m s' route routes ret hroute hgood hrest ih =>
      obtain ⟨⟨hsource, htarget⟩, hroutes⟩ := List.forall_mem_cons.mp hroutes
      have hout := routeFunctionInternal_outcome hs.blank hroute
      have hstep := hout.advances hs hsource
      by_cases hne : route.source = f
      · subst hne
        obtain ⟨size, hsite', hsize⟩ := hout.hooked hs hsource htarget hsite hgood
        obtain ⟨site', hfinal, hmap, hkeep⟩ := ih hstep.orderly hroutes hsite'
        refine ⟨site', hfinal, ?_, fun target n h => ?_⟩
        · rw [hmap, hooksOf_cons_self, List.head?_append, Option.or_assoc]
          rfl
        · exact hkeep _ _ (by rw [hsize target n h])
      · have hsite' := hsite.other hs hspaced hf hsource (Ne.symm hne) hstep
        obtain ⟨site', hfinal, hmap, hkeep⟩ := ih hstep.orderly hroutes hsite'
        exact ⟨site', hfinal, by rw [hmap, hooksOf_cons_ne hne], hkeep⟩

theorem sample_memory_ne (k : Nat) (hk : k < tempExecutableMemorySize) :
    (0x10000 : Address) + BitVec.ofNat 64 k ≠ 0 := by
  rw [tempExecutableMemorySize] at hk
  intro hzero
  have hsum := congrArg BitVec.toNat hzero
  have hbase : (0x10000 : Address).toNat = 0x10000 := rfl
  have hnone : (0 : Address).toNat = 0 := rfl
  rw [BitVec.toNat_add, BitVec.toNat_ofNat, hbase, hnone] at hsum
  omega

/-- A machine on which nothing fails.  Its decoder knows `nop`. -/
def sampleHost : Host where
  kernelWriting _ := true
  allocates _ := true
  reallocates _ := true
  tempExecutableMemory := 0x10000
  disasm text address := if text address = 0x90 then some 1 else none
  memory_ne := sample_memory_ne
  disasm_pos text address length h := by
    split at h
    · cases h
      decide
    · cases h

/-- Two functions in a page of `nop`, and a page of slots. -/
def sampleStart : Patcher where
  text address := if inside 0x20000 0x1000 address then 0x90 else 0
  code := .noError
  tempExecutableMemoryOff := 0
  addressSlots info := if info = 0 then (0x40000, 0x41000) else (0, 0)
  orgs _ := 0
  books := ⟨0, [], [], 0⟩

def sampleFunctions : Set Address := {0x20000, 0x20100}

def sampleRoute (source target : Address) (cell : Nat) : Route :=
  ⟨source, target, true, true, true, .auto, some 0, some cell⟩

/-- Two hooks of the first function and one of the second, too far away for a
relative jump. -/
def sampleRoutes : List Route :=
  [sampleRoute 0x20000 0xFFFFFF0000000000 0, sampleRoute 0x20100 0xFFFFFF0000000000 1,
    sampleRoute 0x20000 0xFFFFFF8000000000 2]

def sampleNext (s : Patcher) (route : Route) : Patcher :=
  endState (routeFunctionInternal sampleHost route s)

/-- The states after the first, the second and the third redirection. -/
def sampleFirst : Patcher := sampleNext sampleStart (sampleRoute 0x20000 0xFFFFFF0000000000 0)

def sampleSecond : Patcher := sampleNext sampleFirst (sampleRoute 0x20100 0xFFFFFF0000000000 1)

def sampleEnd : Patcher := sampleNext sampleSecond (sampleRoute 0x20000 0xFFFFFF8000000000 2)

theorem sample_region {region : Option Nat} {address : Address}
    (h : Region sampleHost sampleStart region address) :
    (region = none ∧ 0x10000 ≤ address.toNat ∧ address.toNat < 0x11000) ∨
      (region = some 0 ∧ 0x40000 ≤ address.toNat ∧ address.toNat < 0x41000) := by
  cases region with
  | none => exact .inl ⟨rfl, (inside_range (by decide)).mp h⟩
  | some info =>
      by_cases hinfo : info = 0
      · subst hinfo
        exact .inr ⟨rfl, (inside_range (by decide)).mp h⟩
      · have hslots : sampleStart.addressSlots info = (0, 0) := if_neg hinfo
        rw [Region, slotSpace, hslots, inside_iff] at h
        cases h

theorem sample_window {f address : Address} (hf : f ∈ sampleFunctions)
    (hin : inside f longJump address = true) :
    f.toNat ≤ address.toNat ∧ address.toNat < f.toNat + 14 ∧
      (f.toNat = 0x20000 ∨ f.toNat = 0x20100) := by
  rcases hf with rfl | rfl
  · have hrange := (inside_range (by decide)).mp hin
    exact ⟨hrange.1, hrange.2, .inl rfl⟩
  · have hrange := (inside_range (by decide)).mp hin
    exact ⟨hrange.1, hrange.2, .inr rfl⟩

theorem sample_blank : Blank sampleHost sampleStart := by
  intro k _ hk
  refine if_neg fun hin => ?_
  obtain ⟨region, hregion⟩ : Free sampleHost sampleStart
      (sampleHost.tempExecutableMemory + BitVec.ofNat 64 k) :=
    ⟨none, region_offset (Nat.zero_le k) hk⟩
  have hrange := (inside_range (by decide)).mp hin
  have hstart : (0x20000 : Address).toNat = 0x20000 := rfl
  rcases sample_region hregion with h | h <;> omega

theorem sample_orderly : Orderly sampleHost sampleFunctions sampleStart where
  blank := sample_blank
  windows f hf address hin hfree := by
    obtain ⟨region, hregion⟩ := hfree
    have hwindow := sample_window hf hin
    rcases sample_region hregion with h | h <;> omega
  regions region region' address h h' := by
    rcases sample_region h with ⟨rfl, h⟩ | ⟨rfl, h⟩ <;>
      rcases sample_region h' with ⟨rfl, h'⟩ | ⟨rfl, h'⟩ <;> first | rfl | omega
  ends info := by
    by_cases hinfo : info = 0
    · subst hinfo
      decide
    · have hslots : sampleStart.addressSlots info = (0, 0) := if_neg hinfo
      rw [hslots]
      decide
  near f hf info address h := by
    have hnext : (f + 6).toNat = f.toNat + 6 ∧ f.toNat < 0x30000 := by
      rcases hf with rfl | rfl <;> exact ⟨rfl, by decide⟩
    rcases sample_region h with ⟨hregion, -⟩ | ⟨-, hlow, hhigh⟩
    · cases hregion
    · apply Plan.near_of_close <;> omega

theorem sample_spaced : Spaced sampleFunctions := by
  intro f hf g hg hne address hin
  rw [← Bool.not_eq_true]
  intro hin'
  have hwindow := sample_window hf hin
  have hwindow' := sample_window hg hin'
  exact hne (BitVec.eq_of_toNat_eq (by omega))

theorem sample_plain : ∀ f ∈ sampleFunctions, readChain sampleStart.text f = none := by
  rintro f (rfl | rfl) <;> rfl

theorem sample_routes : ∀ route ∈ sampleRoutes, route.source ∈ sampleFunctions ∧
    route.target ≠ 0 ∧ route.kernelRoute = true ∧ route.revertible = true := by
  intro route hmem
  simp only [sampleRoutes, List.mem_cons, List.not_mem_nil, or_false] at hmem
  rcases hmem with rfl | rfl | rfl
  · exact ⟨.inl rfl, by decide, rfl, rfl⟩
  · exact ⟨.inr rfl, by decide, rfl, rfl⟩
  · exact ⟨.inl rfl, by decide, rfl, rfl⟩

theorem sample_next {s : Patcher} {route : Route}
    (h : completed (routeFunctionInternal sampleHost route s) = true) :
    ∃ ret, routeFunctionInternal sampleHost route s = .ok ret (sampleNext s route) := by
  rw [sampleNext]
  cases hrun : routeFunctionInternal sampleHost route s with
  | ok ret s' => exact ⟨ret, rfl⟩
  | error panic s' =>
      rw [hrun] at h
      cases h

theorem sample_first : ∃ ret, routeFunctionInternal sampleHost
    (sampleRoute 0x20000 0xFFFFFF0000000000 0) sampleStart = .ok ret sampleFirst :=
  sample_next (by decide +kernel)

theorem sample_second : ∃ ret, routeFunctionInternal sampleHost
    (sampleRoute 0x20100 0xFFFFFF0000000000 1) sampleFirst = .ok ret sampleSecond :=
  sample_next (by decide +kernel)

theorem sample_third : ∃ ret, routeFunctionInternal sampleHost
    (sampleRoute 0x20000 0xFFFFFF8000000000 2) sampleSecond = .ok ret sampleEnd :=
  sample_next (by decide +kernel)

theorem sample_after : Completes sampleHost sampleFirst (sampleRoutes.drop 1) sampleEnd := by
  obtain ⟨_, hsecond⟩ := sample_second
  obtain ⟨_, hthird⟩ := sample_third
  exact .routed hsecond (by decide +kernel) (.routed hthird (by decide +kernel) (.done _))

theorem sample_completes : Completes sampleHost sampleStart sampleRoutes sampleEnd := by
  obtain ⟨_, hfirst⟩ := sample_first
  exact .routed hfirst (by decide +kernel) sample_after

/-- A processor that knows `nop` besides the jumps. -/
def jumper : Processor Unit where
  step text rip state := if text rip = 0x90 then some (rip + 1, state)
    else (readChain text rip).map fun jump => (jump.2, state)
  jump_relative text rip state h := by
    rw [if_neg (by simp [h]), readChain_relative h, Option.map_some]
  jump_indirect text rip state h := by
    have hother : text rip ≠ 0x90 := by
      intro heq
      have hfirst := congrArg List.head? h
      simp only [readBytes, List.range_succ, List.range_zero] at hfirst
      simp [heq] at hfirst
    rw [if_neg hother, readChain_indirect h rfl, Option.map_some]

/-- After a run the newest hook of a function is entered, in the state in which
the function was called; a function without hooks is as before. -/
theorem enters_newest {σ : Type} (p : Processor σ) {routes : List Route}
    (hspaced : Spaced functions) (hs : Orderly host functions start)
    (hplain : ∀ f ∈ functions, readChain start.text f = none)
    (hrun : Completes host start routes s)
    (hroutes : ∀ route ∈ routes, route.source ∈ functions ∧ route.target ≠ 0) (hf : f ∈ functions)
    (state : σ) :
    (∀ target, (hooksOf f routes).head? = some target →
        p.step s.text f state = some (target, state)) ∧
      (hooksOf f routes = [] →
        readBytes s.text f longJump = readBytes start.text f longJump) := by
  have hsite : Site host functions start.text start f none :=
    .plain (hplain f hf) fun _ _ => rfl
  obtain ⟨site, hfinal, hmap, -⟩ := hrun.sites hspaced hs hroutes hf hsite
  rw [Option.map_none, Option.or_none] at hmap
  constructor
  · intro target hhead
    rw [hhead] at hmap
    cases hfinal with
    | plain => cases hmap
    | hooked hhook =>
        cases hmap
        exact readChain_step p (hhook.stands.readChain hhook.fits) state
  · intro hnone
    rw [hnone] at hmap
    cases hfinal with
    | plain hchain hsame => exact readBytes_congr (by simp [longJump]) hsame
    | hooked => cases hmap

theorem enters_newest_sample :
    jumper.step sampleEnd.text 0x20000 () = some (0xFFFFFF8000000000, ()) :=
  (enters_newest jumper sample_spaced sample_orderly sample_plain sample_completes
    (fun route hmem => ⟨(sample_routes route hmem).1, (sample_routes route hmem).2.1⟩)
    (.inl rfl) ()).1 _ rfl

/-- The other variables keep their originals. -/
theorem Outcome.orgs_eq {cell : Nat} (h : Outcome host route s s') (hcell : some cell ≠ route.org) :
    s'.orgs cell = s.orgs cell := by
  cases h with
  | refused hslot haside horgs hcode hbooks => exact horgs cell hcell
  | chain hrouted hslot hlong hmedium hbooks =>
      exact (withOrg_other hcell).trans (congrFun hslot.orgs cell)
  | first hrouted hslot habsolute haside hwrapper hbooks =>
      exact (withOrg_other hcell).trans (congrFun (haside.orgs.trans hslot.orgs) cell)

/-- A trampoline in memory that nobody else writes to. -/
structure Wrapper (host : Host) (functions : Set Address) (s : Patcher) (org f : Address)
    (original : List UInt8) : Prop where
  trampoline : Trampoline s.text org f original
  owned : ∀ address, inside org (original.length + longJump) address = true →
    ¬ Free host s address ∧ ∀ g ∈ functions, inside g longJump address = false
  short : original.length + longJump ≤ tempExecutableMemorySize

theorem Trampoline.congr {text text' : Code} {org : Address} {original : List UInt8}
    (h : Trampoline text org f original)
    (hshort : original.length + longJump ≤ tempExecutableMemorySize)
    (hsame : ∀ address, inside org (original.length + longJump) address = true →
      text' address = text address) :
    Trampoline text' org f original := by
  have hlong : longJump = 14 := rfl
  have hmemory : tempExecutableMemorySize = 4096 := rfl
  obtain ⟨hcopied, absolute, hfits, hstands⟩ := h
  refine ⟨?_, absolute, hfits, hstands.congr ?_ ?_⟩
  · refine (readBytes_congr (by omega) fun address hin => ?_).trans hcopied
    exact hsame address (inside_mono (by omega) hin)
  · intro address hin
    exact hsame address (inside_part (by have := @Plan.size_le (planOf 0 absolute); omega)
      (by omega) hin)
  · intro slot hplan
    exact absurd rfl (planOf_slotted hplan).1

/-- Later redirections do not touch a trampoline. -/
theorem Wrapper.keep {org source : Address} {original : List UInt8}
    (h : Wrapper host functions s org f original) (hsource : source ∈ functions)
    (hstep : Advances host functions source s s') :
    Wrapper host functions s' org f original := by
  refine ⟨h.trampoline.congr h.short fun address hin => ?_, fun address hin => ?_, h.short⟩
  · obtain ⟨hfree, hout⟩ := h.owned address hin
    exact hstep.text address hfree (hout source hsource)
  · obtain ⟨hfree, hout⟩ := h.owned address hin
    exact ⟨fun hleft => hfree (hstep.shrinks.free hleft), hout⟩

/-- Nothing that happens later changes an original or its trampoline. -/
theorem Run.wrapper {good : Patcher → Prop} {routes : List Route} {cell : Nat} {org : Address}
    {original : List UInt8} (hrun : Run host good s routes s') (hs : Orderly host functions s)
    (hroutes : ∀ route ∈ routes, route.source ∈ functions)
    (hown : ∀ route ∈ routes, route.org ≠ some cell) :
    s'.orgs cell = s.orgs cell ∧
      (Wrapper host functions s org f original → Wrapper host functions s' org f original) := by
  induction hrun with
  | done s => exact ⟨rfl, id⟩
  | cleared hrest ih =>
      obtain ⟨horgs, hwrapper⟩ := ih hs.cleared hroutes hown
      exact ⟨horgs, fun h => hwrapper ⟨h.trampoline, h.owned, h.short⟩⟩
  | @routed s m s' route routes ret hroute hgood hrest ih =>
      obtain ⟨hsource, hroutes⟩ := List.forall_mem_cons.mp hroutes
      obtain ⟨hcell, hown⟩ := List.forall_mem_cons.mp hown
      have hout := routeFunctionInternal_outcome hs.blank hroute
      have hstep := hout.advances hs hsource
      obtain ⟨horgs, hwrapper⟩ := ih hstep.orderly hroutes hown
      exact ⟨horgs.trans (hout.orgs_eq (Ne.symm hcell)), fun h => hwrapper (h.keep hsource hstep)⟩

/-- What a redirected function has not lost of its beginning is as before. -/
theorem Site.text_eq {target : Address} {n : Nat}
    (h : Site host functions code s f (some (target, n))) (hout : inside f n address = false)
    (hin : inside f longJump address = true) :
    s.text address = code address := by
  cases h with
  | hooked hhook _ _ hrest => exact hrest address hin hout

end Runs

end Routing

end Kryptonite
