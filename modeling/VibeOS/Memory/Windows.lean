import VibeOS.Memory.AddressSpace

/-! The windows that the window manager puts into an address space, and the list of the ranges
that they leave behind. -/
namespace VibeOS.Memory
namespace AddressSpace
variable (as : AddressSpace)

/-- The search of `wm_freelist_take` from the `k`th range on: the smallest range that is large
enough, the first of these, and where it is in the list. -/
def bestFit (nPages : ℕ) : ℕ → List WmVaRange → Option (ℕ × WmVaRange) → Option (ℕ × WmVaRange)
  | _, [], best => best
  | k, r :: rs, best =>
    if r.nPages ≥ nPages ∧ best.all (fun b => r.nPages < b.2.nPages) then bestFit nPages (k + 1) rs (some (k,r))
    else bestFit nPages (k + 1) rs best

/-- `wm_freelist_take`: a range is used from its low end. -/
def wmFreelistTake (nPages : ℕ) : Option (ℕ × AddressSpace) :=
  (bestFit nPages 0 as.wmFreelist none).map fun (k,best) =>
    let list :=
      if best.nPages = nPages then as.wmFreelist.eraseIdx k
      else as.wmFreelist.set k ⟨best.va + nPages*pageSize,best.nPages - nPages⟩
    (best.va,{ as with wmFreelist := list })

/-- `wm_freelist_release`: the range is joined with the ones that it touches. -/
def wmFreelistRelease (va nPages : ℕ) (kmallocOk : Bool) : AddressSpace :=
  let before := as.wmFreelist.takeWhile fun r => r.va < va
  let after := as.wmFreelist.dropWhile fun r => r.va < va
  let prev := before.getLast?.filter fun p => p.va + p.nPages*pageSize == va
  let cur := after.head?.filter fun c => va + nPages*pageSize == c.va
  let list := match prev, cur with
    | some p, some c => before.dropLast ++ ⟨p.va,p.nPages + (nPages + c.nPages)⟩ :: after.tail
    | some p, none => before.dropLast ++ ⟨p.va,p.nPages + nPages⟩ :: after
    | none, some c => before ++ ⟨va,c.nPages + nPages⟩ :: after.tail
    | none, none => if kmallocOk then before ++ ⟨va,nPages⟩ :: after else as.wmFreelist
  if nPages = 0 then as else { as with wmFreelist := list }

def windowDesc (pa : ℕ) : Desc := ⟨true,true,true,false,false,false,true,pa⟩

/-- The loop of `address_space_install_wm_window`: whether it came through, and over how many
pages. -/
def installLoop : List ℕ → ℕ → ℕ → AddressSpace → Pmem → Bool × ℕ × AddressSpace × Pmem
  | [], i, _, as, m => (true,i,as,m)
  | pa :: pas, i, va, as, m =>
    if pa % pageSize ≠ 0 then (false,i,as,m)
    else
      match as.l3For (indexOf va).1 m with
      | none => (false,i,as,m)
      | some (as,m) => installLoop pas (i + 1) (va + pageSize) (as.setEntry (indexOf va) (windowDesc pa)).onePageMore m

/-- `n` entries from `va` on are emptied. -/
def unmapWindow : ℕ → ℕ → AddressSpace → AddressSpace
  | 0, _, as => as
  | n + 1, va, as =>
    let as := if (as.entryLookup (indexOf va)).isSome then as.setEntry (indexOf va) .zero else as
    unmapWindow n (va + pageSize) as.onePageLess

/-- `address_space_install_wm_window`, with where the window is. -/
def installWmWindow (pagePas : List ℕ) (kmallocOk : Bool) (m : Pmem) : Option ℕ × AddressSpace × Pmem :=
  if pagePas = [] then (none,as,m)
  else
    match as.wmFreelistTake pagePas.length with
    | some (va,as) =>
      match installLoop pagePas 0 va as m with
      | (true,_,as,m) => (some va,as,m)
      | (false,i,as,m) => (none,(unmapWindow i va as).wmFreelistRelease va pagePas.length kmallocOk,m)
    | none =>
      match as.mmapBrkAlloc pagePas.length with
      | none => (none,as,m)
      | some (va,as) =>
        match installLoop pagePas 0 va as m with
        | (true,_,as,m) => (some va,as,m)
        | (false,i,as,m) =>
          let as := unmapWindow i va as
          (none,{ as with mmapBrk := (as.mmapBrk + 2^64 - pagePas.length*pageSize % 2^64) % 2^64 },m)

/-- Whether the `n` pages from `va` on are all a window's. -/
def allWindow : ℕ → ℕ → Bool
  | 0, _ => true
  | n + 1, va => (as.entryLookup (indexOf va)).any (fun e => e.valid && e.wmWindow) && allWindow n (va + pageSize)

/-- `address_space_uninstall_wm_window` -/
def uninstallWmWindow (va nPages : ℕ) (kmallocOk : Bool) : Bool × AddressSpace :=
  if nPages = 0 then (false,as)
  else if va % pageSize ≠ 0 then (false,as)
  else if !as.allWindow nPages va then (false,as)
  else (true,(unmapWindow nPages va as).wmFreelistRelease va nPages kmallocOk)

end AddressSpace
end VibeOS.Memory
