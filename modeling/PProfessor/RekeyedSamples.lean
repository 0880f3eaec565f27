import PProfessor.HeapHistory

set_option autoImplicit false

/-!
# Samples under rewritten stacks

The samples of a heap profile are collected again under stacks whose frames have got their
mappings and symbols. Frames keep their addresses, and stacks that stay apart lose no values.
-/
namespace PProfessor.Heap

/-- The samples are those before, under rewritten stacks that stay apart. -/
structure KeepsSamples (rewrite : HeapFrame → HeapFrame)
    (before after : Std.ExtTreeMap Stack HeapValues) : Prop where
  apart : ∀ s s' : Stack, s ∈ before → s' ∈ before → s.map rewrite = s'.map rewrite → s = s'
  entries : after.toList.Perm (before.toList.map fun s => (s.1.map rewrite, s.2))
  size : after.size = before.size
  values : (after.toList.map Prod.snd).Perm (before.toList.map Prod.snd)
  addresses : ∀ frame, (rewrite frame).address = frame.address

/-- Stacks that stay apart do not overwrite each other. -/
theorem rekey_keeps {rewrite : HeapFrame → HeapFrame}
    {samples : Std.ExtTreeMap Stack HeapValues}
    (hapart : ∀ s s' : Stack, s ∈ samples → s' ∈ samples →
      s.map rewrite = s'.map rewrite → s = s')
    (haddresses : ∀ frame, (rewrite frame).address = frame.address) :
    KeepsSamples rewrite samples (rekey rewrite samples) := by
  let entries := samples.toList.map fun s => (s.1.map rewrite, s.2)
  have hmem {s : Stack × HeapValues} (hs : s ∈ samples.toList) : s.1 ∈ samples := by
    rw [Std.ExtTreeMap.mem_iff_isSome_getElem?,
      Std.ExtTreeMap.mem_toList_iff_getElem?_eq_some.mp hs]
    rfl
  have hdistinct : entries.Pairwise fun a b => ¬compare a.1 b.1 = .eq := by
    refine List.pairwise_map.mpr
      (Std.ExtTreeMap.distinct_keys_toList.imp_of_mem fun {a b} ha hb hab heq => hab ?_)
    rw [hapart a.1 b.1 (hmem ha) (hmem hb) (Std.LawfulEqOrd.eq_of_compare heq)]
    exact Std.ReflCmp.compare_self
  have hnodup : entries.Nodup := hdistinct.imp fun {a b} hab heq => hab (by
    rw [heq]
    exact Std.ReflCmp.compare_self)
  have hentries : (rekey rewrite samples).toList.Perm entries := by
    refine (List.perm_ext_iff_of_nodup ?_ hnodup).mpr ?_
    · refine Std.ExtTreeMap.distinct_keys_toList.imp fun {a b} hab heq => hab ?_
      rw [heq]
      exact Std.ReflCmp.compare_self
    · rintro ⟨stack, values⟩
      rw [Std.ExtTreeMap.mem_toList_iff_getElem?_eq_some]
      constructor
      · intro h
        have hkey : stack ∈ rekey rewrite samples := by
          rw [Std.ExtTreeMap.mem_iff_isSome_getElem?, h]
          rfl
        unfold rekey at hkey
        rw [Std.ExtTreeMap.mem_ofList, List.contains_iff_mem] at hkey
        obtain ⟨⟨stack', values'⟩, hentry, rfl⟩ := List.mem_map.mp hkey
        have hget : (rekey rewrite samples)[stack']? = some values' :=
          Std.ExtTreeMap.getElem?_ofList_of_mem Std.ReflCmp.compare_self hdistinct hentry
        rw [h] at hget
        rw [Option.some.inj hget]
        exact hentry
      · exact Std.ExtTreeMap.getElem?_ofList_of_mem Std.ReflCmp.compare_self hdistinct
  refine ⟨hapart, hentries, ?_, ?_, haddresses⟩
  · rw [← Std.ExtTreeMap.length_toList, hentries.length_eq, List.length_map,
      Std.ExtTreeMap.length_toList]
  · have hvalues := hentries.map Prod.snd
    rw [List.map_map] at hvalues
    exact hvalues

theorem attachImage_address (images : Std.ExtTreeMap UInt64 HeapMapping) (frame : HeapFrame) :
    (attachImage images frame).address = frame.address := rfl

def Unmapped (stack : Stack) : Prop := ∀ frame ∈ stack, frame.mapping = none

theorem apart_of_unmapped (images : Std.ExtTreeMap UInt64 HeapMapping) {stack stack' : Stack}
    (h : Unmapped stack) (h' : Unmapped stack')
    (heq : stack.map (attachImage images) = stack'.map (attachImage images)) : stack = stack' := by
  have hback {s : Stack} (hs : Unmapped s) :
      (s.map (attachImage images)).map (fun frame => { frame with mapping := none }) = s := by
    rw [List.map_map]
    refine (List.map_congr_left fun frame hframe => ?_).trans (List.map_id s)
    change ({ frame with mapping := none } : HeapFrame) = frame
    rw [← hs frame hframe]
  rw [← hback h, heq, hback h']

end PProfessor.Heap
