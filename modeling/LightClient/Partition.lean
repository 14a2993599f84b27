import LightClient.Url

/-!
# Accepted partitions

Anchors are taken only from the directory and from the partitions that hold accounts. The test reads
the partition as a block record spells it, before it is known to be a URL.

Module `inclusion::entry` of the specification (sections 3 and 4.2): `is_accepted_partition`.
-/
namespace LightClient.Partition

/-- Whether a block record's source partition is the directory or contains the URL start of a
partition that holds accounts. Blanks around it and the case of letters do not matter. -/
def accepted (partition : String) : Bool :=
  let name := Text.lower (Text.trim partition.toList)
  name == Url.directory.text.toList || Text.contains "acc://bvn-".toList name

end LightClient.Partition
