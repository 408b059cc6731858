/-
ExponentialHistogram.Threshold.Coarser — the thresholds of scales 1 to 9, as
data.

Each scale has a table of its own, like scale 10. A table with more than 64
entries stands in parts, to keep each literal short.
-/

namespace ExponentialHistogram.Threshold

/-! ## Scales 1 to 6 -/

/-- The thresholds of scale 1, in the order of their positions. -/
def thresholds1 : Array Nat := #[0x0000000000000, 0x6a09e667f3bcd]

/-- The thresholds of scale 2, in the order of their positions. -/
def thresholds2 : Array Nat := #[0x0000000000000, 0x306fe0a31b716, 0x6a09e667f3bcd, 0xae89f995ad3ae]

/-- The thresholds of scale 3, in the order of their positions. -/
def thresholds3 : Array Nat := #[
  0x0000000000000, 0x172b83c7d517b, 0x306fe0a31b716, 0x4bfdad5362a28,
  0x6a09e667f3bcd, 0x8ace5422aa0dc, 0xae89f995ad3ae, 0xd5818dcfba488]

/-- The thresholds of scale 4, in the order of their positions. -/
def thresholds4 : Array Nat := #[
  0x0000000000000, 0x0b5586cf98910, 0x172b83c7d517b, 0x2387a6e756239,
  0x306fe0a31b716, 0x3dea64c123423, 0x4bfdad5362a28, 0x5ab07dd48542a,
  0x6a09e667f3bcd, 0x7a11473eb0187, 0x8ace5422aa0dc, 0x9c49182a3f091,
  0xae89f995ad3ae, 0xc199bdd85529d, 0xd5818dcfba488, 0xea4afa2a490da]

/-- The thresholds of scale 5, in the order of their positions. -/
def thresholds5 : Array Nat := #[
  0x0000000000000, 0x059b0d3158575, 0x0b5586cf98910, 0x11301d0125b51,
  0x172b83c7d517b, 0x1d4873168b9ab, 0x2387a6e756239, 0x29e9df51fdee2,
  0x306fe0a31b716, 0x371a7373aa9cb, 0x3dea64c123423, 0x44e086061892e,
  0x4bfdad5362a28, 0x5342b569d4f82, 0x5ab07dd48542a, 0x6247eb03a5585,
  0x6a09e667f3bcd, 0x71f75e8ec5f74, 0x7a11473eb0187, 0x82589994cce13,
  0x8ace5422aa0dc, 0x93737b0cdc5e5, 0x9c49182a3f091, 0xa5503b23e255d,
  0xae89f995ad3ae, 0xb7f76f2fb5e47, 0xc199bdd85529d, 0xcb720dcef906a,
  0xd5818dcfba488, 0xdfc97337b9b5f, 0xea4afa2a490da, 0xf50765b6e4541]

/-- The thresholds of scale 6, in the order of their positions. -/
def thresholds6 : Array Nat := #[
  0x0000000000000, 0x02c9a3e778061, 0x059b0d3158575, 0x0874518759bc9,
  0x0b5586cf98910, 0x0e3ec32d3d1a3, 0x11301d0125b51, 0x1429aaea92de0,
  0x172b83c7d517b, 0x1a35beb6fcb76, 0x1d4873168b9ab, 0x2063b88628cd7,
  0x2387a6e756239, 0x26b4565e27cde, 0x29e9df51fdee2, 0x2d285a6e4030c,
  0x306fe0a31b716, 0x33c08b2641700, 0x371a7373aa9cb, 0x3a7db34e59ff7,
  0x3dea64c123423, 0x4160a21f72e2a, 0x44e086061892e, 0x486a2b5c13cd1,
  0x4bfdad5362a28, 0x4f9b2769d2ca7, 0x5342b569d4f82, 0x56f4736b527db,
  0x5ab07dd48542a, 0x5e76f15ad2149, 0x6247eb03a5585, 0x6623882552225,
  0x6a09e667f3bcd, 0x6dfb23c651a2f, 0x71f75e8ec5f74, 0x75feb564267c9,
  0x7a11473eb0187, 0x7e2f336cf4e63, 0x82589994cce13, 0x868d99b4492ed,
  0x8ace5422aa0dc, 0x8f1ae99157737, 0x93737b0cdc5e5, 0x97d829fde4e50,
  0x9c49182a3f091, 0xa0c667b5de565, 0xa5503b23e255d, 0xa9e6b5579fdc0,
  0xae89f995ad3ae, 0xb33a2b84f15fb, 0xb7f76f2fb5e47, 0xbcc1e904bc1d3,
  0xc199bdd85529d, 0xc67f12e57d14c, 0xcb720dcef906a, 0xd072d4a07897c,
  0xd5818dcfba488, 0xda9e603db3286, 0xdfc97337b9b5f, 0xe502ee78b3ff7,
  0xea4afa2a490da, 0xefa1bee615a28, 0xf50765b6e4541, 0xfa7c1819e90d9]

/-! ## Scale 7 -/

private def thresholds7Part0 : Array Nat := #[
  0x0000000000000, 0x0163da9fb3336, 0x02c9a3e778061, 0x04315e86e7f85,
  0x059b0d3158575, 0x0706b29ddf6de, 0x0874518759bc9, 0x09e3ecac6f384,
  0x0b5586cf98910, 0x0cc922b7247f8, 0x0e3ec32d3d1a3, 0x0fb66affed31b,
  0x11301d0125b51, 0x12abdc06c31cc, 0x1429aaea92de0, 0x15a98c8a58e52,
  0x172b83c7d517b, 0x18af9388c8dea, 0x1a35beb6fcb76, 0x1bbe084045cd4,
  0x1d4873168b9ab, 0x1ed5022fcd91d, 0x2063b88628cd7, 0x21f49917ddc97,
  0x2387a6e756239, 0x251ce4fb2a640, 0x26b4565e27cde, 0x284dfe1f56381,
  0x29e9df51fdee2, 0x2b87fd0dad990, 0x2d285a6e4030c, 0x2ecafa93e2f57,
  0x306fe0a31b716, 0x32170fc4cd832, 0x33c08b2641700, 0x356c55f929ff1,
  0x371a7373aa9cb, 0x38cae6d05d866, 0x3a7db34e59ff7, 0x3c32dc313a8e5,
  0x3dea64c123423, 0x3fa4504ac801c, 0x4160a21f72e2a, 0x431f5d950a897,
  0x44e086061892e, 0x46a41ed1d0058, 0x486a2b5c13cd1, 0x4a32af0d7d3df,
  0x4bfdad5362a28, 0x4dcb299fddd0e, 0x4f9b2769d2ca7, 0x516daa2cf6642,
  0x5342b569d4f82, 0x551a4ca5d920f, 0x56f4736b527db, 0x58d12d497c7fe,
  0x5ab07dd48542a, 0x5c9268a5946b8, 0x5e76f15ad2149, 0x605e1b976dc09,
  0x6247eb03a5585, 0x6434634ccc320, 0x6623882552225, 0x68155d44ca974]

private def thresholds7Part1 : Array Nat := #[
  0x6a09e667f3bcd, 0x6c012750bdabf, 0x6dfb23c651a2f, 0x6ff7df9519484,
  0x71f75e8ec5f74, 0x73f9a48a58174, 0x75feb564267c9, 0x780694fde5d40,
  0x7a11473eb0187, 0x7c1ed0130c133, 0x7e2f336cf4e63, 0x80427543e1a12,
  0x82589994cce13, 0x8471a4623c7ad, 0x868d99b4492ed, 0x88ac7d98a669a,
  0x8ace5422aa0dc, 0x8cf3216b5448c, 0x8f1ae99157737, 0x9145b0b91ffc6,
  0x93737b0cdc5e5, 0x95a44cbc8520f, 0x97d829fde4e50, 0x9a0f170ca07ba,
  0x9c49182a3f091, 0x9e86319e32324, 0xa0c667b5de565, 0xa309bec4a2d34,
  0xa5503b23e255d, 0xa799e1330b359, 0xa9e6b5579fdc0, 0xac36bbfd3f37a,
  0xae89f995ad3ae, 0xb0e07298db666, 0xb33a2b84f15fb, 0xb59728de5593a,
  0xb7f76f2fb5e47, 0xba5b030a1064a, 0xbcc1e904bc1d3, 0xbf2c25bd71e09,
  0xc199bdd85529d, 0xc40ab5fffd07b, 0xc67f12e57d14c, 0xc8f6d9406e7b6,
  0xcb720dcef906a, 0xcdf0b555dc3fa, 0xd072d4a07897c, 0xd2f87080d89f2,
  0xd5818dcfba488, 0xd80e316c98398, 0xda9e603db3286, 0xdd321f301b461,
  0xdfc97337b9b5f, 0xe264614f5a129, 0xe502ee78b3ff7, 0xe7a51fbc74c84,
  0xea4afa2a490da, 0xecf482d8e67f1, 0xefa1bee615a28, 0xf252b376bba98,
  0xf50765b6e4541, 0xf7bfdad9cbe14, 0xfa7c1819e90d9, 0xfd3c22b8f71f2]

/-- The thresholds of scale 7, in the order of their positions. -/
def thresholds7 : Array Nat :=
  thresholds7Part0 ++ thresholds7Part1

/-! ## Scale 8 -/

private def thresholds8Part0 : Array Nat := #[
  0x0000000000000, 0x00b1afa5abcbf, 0x0163da9fb3336, 0x02168143b0281,
  0x02c9a3e778061, 0x037d42e11bbcd, 0x04315e86e7f85, 0x04e5f72f654b2,
  0x059b0d3158575, 0x0650a0e3c1f89, 0x0706b29ddf6de, 0x07bd42b72a837,
  0x0874518759bc9, 0x092bdf66607e0, 0x09e3ecac6f384, 0x0a9c79b1f391a,
  0x0b5586cf98910, 0x0c0f145e46c86, 0x0cc922b7247f8, 0x0d83b23395dec,
  0x0e3ec32d3d1a3, 0x0efa55fdfa9c5, 0x0fb66affed31b, 0x1073028d7233f,
  0x11301d0125b51, 0x11edbab5e2ab6, 0x12abdc06c31cc, 0x136a814f204ab,
  0x1429aaea92de0, 0x14e95934f312e, 0x15a98c8a58e52, 0x166a45471c3c3,
  0x172b83c7d517b, 0x17ed48695bbc1, 0x18af9388c8dea, 0x1972658375d30,
  0x1a35beb6fcb76, 0x1af99f8138a1d, 0x1bbe084045cd4, 0x1c82f95281c6c,
  0x1d4873168b9ab, 0x1e0e75eb44027, 0x1ed5022fcd91d, 0x1f9c18438ce4d,
  0x2063b88628cd7, 0x212be3578a81a, 0x21f49917ddc97, 0x22bdda27912d2,
  0x2387a6e756239, 0x2451ffb82140b, 0x251ce4fb2a640, 0x25e85711ece76,
  0x26b4565e27cde, 0x2780e341ddf2a, 0x284dfe1f56381, 0x291ba7591bb70,
  0x29e9df51fdee2, 0x2ab8a66d10f13, 0x2b87fd0dad990, 0x2c57e39771b2f,
  0x2d285a6e4030c, 0x2df961f64158a, 0x2ecafa93e2f57, 0x2f9d24abd886b]

private def thresholds8Part1 : Array Nat := #[
  0x306fe0a31b716, 0x31432edeeb2fe, 0x32170fc4cd832, 0x32eb83ba8ea32,
  0x33c08b2641700, 0x3496266e3fa2d, 0x356c55f929ff1, 0x36431a2de883b,
  0x371a7373aa9cb, 0x37f26231e754a, 0x38cae6d05d866, 0x39a401b7140ef,
  0x3a7db34e59ff7, 0x3b57fbfec6cf5, 0x3c32dc313a8e5, 0x3d0e544ede174,
  0x3dea64c123423, 0x3ec70df1c5175, 0x3fa4504ac801c, 0x40822c367a025,
  0x4160a21f72e2a, 0x423fb2709468a, 0x431f5d950a897, 0x43ffa3f84b9d5,
  0x44e086061892e, 0x45c2042a7d232, 0x46a41ed1d0058, 0x4786d668b3237,
  0x486a2b5c13cd1, 0x494e1e192aed2, 0x4a32af0d7d3df, 0x4b17dea6db7d7,
  0x4bfdad5362a28, 0x4ce41b817c115, 0x4dcb299fddd0e, 0x4eb2d81d8abff,
  0x4f9b2769d2ca7, 0x508417f4531ef, 0x516daa2cf6642, 0x5257de83f4eef,
  0x5342b569d4f82, 0x542e2f4f6ad28, 0x551a4ca5d920f, 0x56070dde910d2,
  0x56f4736b527db, 0x57e27dbe2c4cf, 0x58d12d497c7fe, 0x59c0827ff07cc,
  0x5ab07dd48542a, 0x5ba11fba87a03, 0x5c9268a5946b8, 0x5d84590998b93,
  0x5e76f15ad2149, 0x5f6a320dceb71, 0x605e1b976dc09, 0x6152ae6cdf6f5,
  0x6247eb03a5585, 0x633dd1d1929fe, 0x6434634ccc320, 0x652b9febc8fb7,
  0x6623882552225, 0x671c1c70833f6, 0x68155d44ca974, 0x690f4b19e9539]

private def thresholds8Part2 : Array Nat := #[
  0x6a09e667f3bcd, 0x6b052fa75173f, 0x6c012750bdabf, 0x6cfdcddd47646,
  0x6dfb23c651a2f, 0x6ef9298593ae5, 0x6ff7df9519484, 0x70f7466f42e88,
  0x71f75e8ec5f74, 0x72f8286ead08a, 0x73f9a48a58174, 0x74fbd35d7cbfe,
  0x75feb564267c9, 0x77024b1ab6e0a, 0x780694fde5d40, 0x790b938ac1cf7,
  0x7a11473eb0187, 0x7b17b0976cfdb, 0x7c1ed0130c133, 0x7d26a62ff86f1,
  0x7e2f336cf4e63, 0x7f3878491c491, 0x80427543e1a12, 0x814d2add106da,
  0x82589994cce13, 0x8364c1eb941f8, 0x8471a4623c7ad, 0x857f4179f5b21,
  0x868d99b4492ed, 0x879cad931a437, 0x88ac7d98a669a, 0x89bd0a4785810,
  0x8ace5422aa0dc, 0x8be05bad61779, 0x8cf3216b5448c, 0x8e06a5e0866d9,
  0x8f1ae99157737, 0x902fed0282c8b, 0x9145b0b91ffc6, 0x925c353aa2fe2,
  0x93737b0cdc5e5, 0x948b82b5f98e5, 0x95a44cbc8520f, 0x96bdd9a7670b3,
  0x97d829fde4e50, 0x98f33e47a22a3, 0x9a0f170ca07ba, 0x9b2bb4d53fe0d,
  0x9c49182a3f091, 0x9d674194bb8d5, 0x9e86319e32324, 0x9fa5e8d07f29e,
  0xa0c667b5de565, 0xa1e7aed8eb8bc, 0xa309bec4a2d34, 0xa42c980460ad8,
  0xa5503b23e255d, 0xa674a8af46053, 0xa799e1330b359, 0xa8bfe53c12e59,
  0xa9e6b5579fdc0, 0xab0e521356ebb, 0xac36bbfd3f37a, 0xad5ff3a3c2775]

private def thresholds8Part3 : Array Nat := #[
  0xae89f995ad3ae, 0xafb4ce622f2ff, 0xb0e07298db666, 0xb20ce6c9a8953,
  0xb33a2b84f15fb, 0xb468415b749b1, 0xb59728de5593a, 0xb6c6e29f1c52b,
  0xb7f76f2fb5e47, 0xb928cf22749e4, 0xba5b030a1064a, 0xbb8e0b79a6f1f,
  0xbcc1e904bc1d3, 0xbdf69c3f3a207, 0xbf2c25bd71e09, 0xc06286141b33d,
  0xc199bdd85529d, 0xc2d1cd9fa652c, 0xc40ab5fffd07b, 0xc544778fafb23,
  0xc67f12e57d14c, 0xc7ba88988c933, 0xc8f6d9406e7b6, 0xca3405751c4db,
  0xcb720dcef906a, 0xccb0f2e6d1675, 0xcdf0b555dc3fa, 0xcf3155b5bab74,
  0xd072d4a07897c, 0xd1b532b08c969, 0xd2f87080d89f2, 0xd43c8eacaa1d7,
  0xd5818dcfba488, 0xd6c76e862e6d4, 0xd80e316c98398, 0xd955d71ff6076,
  0xda9e603db3286, 0xdbe7cd63a8315, 0xdd321f301b461, 0xde7d5641c0658,
  0xdfc97337b9b5f, 0xe11676b197d17, 0xe264614f5a129, 0xe3b333b16ee12,
  0xe502ee78b3ff7, 0xe653924676d76, 0xe7a51fbc74c84, 0xe8f7977cdb740,
  0xea4afa2a490da, 0xeb9f4867cca6f, 0xecf482d8e67f1, 0xee4aaa2188511,
  0xefa1bee615a28, 0xf0f9c1cb6412a, 0xf252b376bba98, 0xf3ac948dd7274,
  0xf50765b6e4541, 0xf6632798844f9, 0xf7bfdad9cbe14, 0xf91d802243c89,
  0xfa7c1819e90d9, 0xfbdba3692d514, 0xfd3c22b8f71f2, 0xfe9d96b2a23da]

/-- The thresholds of scale 8, in the order of their positions. -/
def thresholds8 : Array Nat :=
  thresholds8Part0 ++ thresholds8Part1 ++ thresholds8Part2 ++ thresholds8Part3

/-! ## Scale 9 -/

private def thresholds9Part0 : Array Nat := #[
  0x0000000000000, 0x0058c86da1c0a, 0x00b1afa5abcbf, 0x010ab5b2cbd12,
  0x0163da9fb3336, 0x01bd1e77170b5, 0x02168143b0281, 0x027003103b10e,
  0x02c9a3e778061, 0x032363d42b028, 0x037d42e11bbcd, 0x03d7411915a8b,
  0x04315e86e7f85, 0x048b9b35659d9, 0x04e5f72f654b2, 0x0540727fc1762,
  0x059b0d3158575, 0x05f5c74f0bec3, 0x0650a0e3c1f89, 0x06ab99fa6407c,
  0x0706b29ddf6de, 0x0761ead925493, 0x07bd42b72a837, 0x0818ba42e7d30,
  0x0874518759bc9, 0x08d0088f80940, 0x092bdf66607e0, 0x0987d61701716,
  0x09e3ecac6f384, 0x0a402331b9716, 0x0a9c79b1f391a, 0x0af8f03834e53,
  0x0b5586cf98910, 0x0bb23d833d93f, 0x0c0f145e46c86, 0x0c6c0b6bdae53,
  0x0cc922b7247f8, 0x0d265a4b520ba, 0x0d83b23395dec, 0x0de12a7b26301,
  0x0e3ec32d3d1a3, 0x0e9c7c55189c7, 0x0efa55fdfa9c5, 0x0f58503328e6d,
  0x0fb66affed31b, 0x1014a66f951cf, 0x1073028d7233f, 0x10d17f64d9ef2,
  0x11301d0125b51, 0x118edb6db2dc1, 0x11edbab5e2ab6, 0x124cbae51a5c8,
  0x12abdc06c31cc, 0x130b1e264a0e9, 0x136a814f204ab, 0x13ca058cbae1e,
  0x1429aaea92de0, 0x1489717425438, 0x14e95934f312e, 0x154962388149f,
  0x15a98c8a58e52, 0x1609d83606e12, 0x166a45471c3c3, 0x16cad3c92df74]

private def thresholds9Part1 : Array Nat := #[
  0x172b83c7d517b, 0x178c554eaea8a, 0x17ed48695bbc1, 0x184e5d23816c9,
  0x18af9388c8dea, 0x1910eba4df420, 0x1972658375d30, 0x19d4013041dc2,
  0x1a35beb6fcb76, 0x1a979e2363cf9, 0x1af99f8138a1d, 0x1b5bc2dc40bf1,
  0x1bbe084045cd4, 0x1c206fb915890, 0x1c82f95281c6c, 0x1ce5a51860746,
  0x1d4873168b9ab, 0x1dab6358e15e8, 0x1e0e75eb44027, 0x1e71aad999e83,
  0x1ed5022fcd91d, 0x1f387bf9cda39, 0x1f9c18438ce4d, 0x1fffd7190241f,
  0x2063b88628cd7, 0x20c7bc96ffc18, 0x212be3578a81a, 0x21902cd3d09b9,
  0x21f49917ddc97, 0x2259282fc1f28, 0x22bdda27912d2, 0x2322af0b63c00,
  0x2387a6e756239, 0x23ecc1c78903a, 0x2451ffb82140b, 0x24b760c547f16,
  0x251ce4fb2a640, 0x25828c65fa200, 0x25e85711ece76, 0x264e450b3cb82,
  0x26b4565e27cde, 0x271a8b16f0a30, 0x2780e341ddf2a, 0x27e75eeb3ab99,
  0x284dfe1f56381, 0x28b4c0ea83f36, 0x291ba7591bb70, 0x2982b17779966,
  0x29e9df51fdee2, 0x2a5130f50d65c, 0x2ab8a66d10f13, 0x2b203fc675d20,
  0x2b87fd0dad990, 0x2befde4f2e281, 0x2c57e39771b2f, 0x2cc00cf2f6c18,
  0x2d285a6e4030c, 0x2d90cc15d5347, 0x2df961f64158a, 0x2e621c1c14834,
  0x2ecafa93e2f57, 0x2f33fd6a454d2, 0x2f9d24abd886b, 0x300670653dfe5]

private def thresholds9Part2 : Array Nat := #[
  0x306fe0a31b716, 0x30d975721b005, 0x31432edeeb2fe, 0x31ad0cf63eeac,
  0x32170fc4cd832, 0x3281375752b40, 0x32eb83ba8ea32, 0x3355f4fb45e21,
  0x33c08b2641700, 0x342b46484ebb4, 0x3496266e3fa2d, 0x35012ba4ea77d,
  0x356c55f929ff1, 0x35d7a577dd72c, 0x36431a2de883b, 0x36aeb428335b5,
  0x371a7373aa9cb, 0x3786581d3f669, 0x37f26231e754a, 0x385e91be9c812,
  0x38cae6d05d866, 0x393761742d809, 0x39a401b7140ef, 0x3a10c7a61d55c,
  0x3a7db34e59ff7, 0x3aeac4bcdf3ea, 0x3b57fbfec6cf5, 0x3bc559212ef89,
  0x3c32dc313a8e5, 0x3ca0853c10f29, 0x3d0e544ede174, 0x3d7c4976d27fa,
  0x3dea64c123423, 0x3e58a63b0a09b, 0x3ec70df1c5175, 0x3f359bf29743f,
  0x3fa4504ac801c, 0x40132b07a35df, 0x40822c367a025, 0x40f153e4a136a,
  0x4160a21f72e2a, 0x41d016f44d8f5, 0x423fb2709468a, 0x42af74a1af3f2,
  0x431f5d950a897, 0x438f6d5817663, 0x43ffa3f84b9d5, 0x4470018321a1a,
  0x44e086061892e, 0x4551318eb43ec, 0x45c2042a7d232, 0x4632fde7006f4,
  0x46a41ed1d0058, 0x471566f8827d0, 0x4786d668b3237, 0x47f86d3001fe6,
  0x486a2b5c13cd1, 0x48dc10fa920a2, 0x494e1e192aed2, 0x49c052c5916c5,
  0x4a32af0d7d3df, 0x4aa532feaada6, 0x4b17dea6db7d7, 0x4b8ab213d5283]

private def thresholds9Part3 : Array Nat := #[
  0x4bfdad5362a28, 0x4c70d073537cb, 0x4ce41b817c115, 0x4d578e8bb586c,
  0x4dcb299fddd0e, 0x4e3eeccbd7b2b, 0x4eb2d81d8abff, 0x4f26eba2e35f1,
  0x4f9b2769d2ca7, 0x500f8b804f127, 0x508417f4531ef, 0x50f8ccd3deb0d,
  0x516daa2cf6642, 0x51e2b00da3b14, 0x5257de83f4eef, 0x52cd359dfd53d,
  0x5342b569d4f82, 0x53b85df598d78, 0x542e2f4f6ad28, 0x54a4298571b06,
  0x551a4ca5d920f, 0x559098bed1be0, 0x56070dde910d2, 0x567dac1351819,
  0x56f4736b527db, 0x576b63f4d854d, 0x57e27dbe2c4cf, 0x5859c0d59ca08,
  0x58d12d497c7fe, 0x5948c32824135, 0x59c0827ff07cc, 0x5a386b5f43d93,
  0x5ab07dd48542a, 0x5b28b9ee20d1e, 0x5ba11fba87a03, 0x5c19af482fc8f,
  0x5c9268a5946b8, 0x5d0b4be135acc, 0x5d84590998b93, 0x5dfd902d47c65,
  0x5e76f15ad2149, 0x5ef07ca0cbf10, 0x5f6a320dceb71, 0x5fe411b078d27,
  0x605e1b976dc09, 0x60d84fd15612b, 0x6152ae6cdf6f5, 0x61cd3778bc945,
  0x6247eb03a5585, 0x62c2c91c56ace, 0x633dd1d1929fe, 0x63b90532205d8,
  0x6434634ccc320, 0x64afec30678b7, 0x652b9febc8fb7, 0x65a77e8dcc390,
  0x6623882552225, 0x669fbcc140be8, 0x671c1c70833f6, 0x6798a7420a036,
  0x68155d44ca974, 0x68923e87bfb7b, 0x690f4b19e9539, 0x698c830a4c8d4]

private def thresholds9Part4 : Array Nat := #[
  0x6a09e667f3bcd, 0x6a877541ee719, 0x6b052fa75173f, 0x6b8315a736c75,
  0x6c012750bdabf, 0x6c7f64b30aa09, 0x6cfdcddd47646, 0x6d7c62dea2f8b,
  0x6dfb23c651a2f, 0x6e7a10a38cee8, 0x6ef9298593ae5, 0x6f786e7ba9fef,
  0x6ff7df9519484, 0x70777ce1303f6, 0x70f7466f42e88, 0x71773c4eaa988,
  0x71f75e8ec5f74, 0x7277ad3ef9011, 0x72f8286ead08a, 0x7378d02d50b90,
  0x73f9a48a58174, 0x747aa5953c849, 0x74fbd35d7cbfe, 0x757d2df29ce7d,
  0x75feb564267c9, 0x768069c1a861e, 0x77024b1ab6e0a, 0x7784597eeba8f,
  0x780694fde5d40, 0x7888fda749e5e, 0x790b938ac1cf7, 0x798e56b7fcf04,
  0x7a11473eb0187, 0x7a94652e958aa, 0x7b17b0976cfdb, 0x7b9b2988fb9ed,
  0x7c1ed0130c133, 0x7ca2a4456e7a3, 0x7d26a62ff86f1, 0x7daad5e2850ac,
  0x7e2f336cf4e63, 0x7eb3bedf2e1ba, 0x7f3878491c491, 0x7fbd5fbab0920,
  0x80427543e1a12, 0x80c7b8f4abaa9, 0x814d2add106da, 0x81d2cb0d1736b,
  0x82589994cce13, 0x82de968443d9b, 0x8364c1eb941f8, 0x83eb1bdadb46e,
  0x8471a4623c7ad, 0x84f85b91e07f2, 0x857f4179f5b21, 0x8606562ab00ed,
  0x868d99b4492ed, 0x87150c27004c3, 0x879cad931a437, 0x88247e08e1957,
  0x88ac7d98a669a, 0x8934ac52be8f8, 0x89bd0a4785810, 0x8a4597875c645]

private def thresholds9Part5 : Array Nat := #[
  0x8ace5422aa0dc, 0x8b574029db01f, 0x8be05bad61779, 0x8c69a6bdb5598,
  0x8cf3216b5448c, 0x8d7ccbc6c19e7, 0x8e06a5e0866d9, 0x8e90afc931858,
  0x8f1ae99157737, 0x8fa553499284b, 0x902fed0282c8b, 0x90bab6ccce12c,
  0x9145b0b91ffc6, 0x91d0dad829e70, 0x925c353aa2fe2, 0x92e7bff148396,
  0x93737b0cdc5e5, 0x93ff669e2802c, 0x948b82b5f98e5, 0x9517cf65253d1,
  0x95a44cbc8520f, 0x9630faccf9244, 0x96bdd9a7670b3, 0x974ae95cba769,
  0x97d829fde4e50, 0x98659b9bddb5c, 0x98f33e47a22a3, 0x9981121235681,
  0x9a0f170ca07ba, 0x9a9d4d47f2598, 0x9b2bb4d53fe0d, 0x9bba4dc5a3dd4,
  0x9c49182a3f091, 0x9cd81414380f3, 0x9d674194bb8d5, 0x9df6a0bcfc15f,
  0x9e86319e32324, 0x9f15f4499c648, 0x9fa5e8d07f29e, 0xa0360f4424fcb,
  0xa0c667b5de565, 0xa156f23701b16, 0xa1e7aed8eb8bc, 0xa2789dacfe68c,
  0xa309bec4a2d34, 0xa39b1231475f8, 0xa42c980460ad8, 0xa4be504f696b1,
  0xa5503b23e255d, 0xa5e25893523d5, 0xa674a8af46053, 0xa7072b8950a73,
  0xa799e1330b359, 0xa82cc9be14dcb, 0xa8bfe53c12e59, 0xa95333beb0b7e,
  0xa9e6b5579fdc0, 0xaa7a6a1897fd3, 0xab0e521356ebb, 0xaba26d59a09ef,
  0xac36bbfd3f37a, 0xaccb3e100301e, 0xad5ff3a3c2775, 0xadf4dcca5a414]

private def thresholds9Part6 : Array Nat := #[
  0xae89f995ad3ae, 0xaf1f4a17a4735, 0xafb4ce622f2ff, 0xb04a868742ee5,
  0xb0e07298db666, 0xb17692a8fa8ce, 0xb20ce6c9a8953, 0xb2a36f0cf3f3a,
  0xb33a2b84f15fb, 0xb3d11c43bbd62, 0xb468415b749b1, 0xb4ff9ade433c6,
  0xb59728de5593a, 0xb62eeb6ddfc87, 0xb6c6e29f1c52b, 0xb75f0e844bfc7,
  0xb7f76f2fb5e47, 0xb89004b3a7804, 0xb928cf22749e4, 0xb9c1ce8e77681,
  0xba5b030a1064a, 0xbaf46ca7a67a8, 0xbb8e0b79a6f1f, 0xbc27df9285776,
  0xbcc1e904bc1d3, 0xbd5c27e2cb5e5, 0xbdf69c3f3a207, 0xbe91462c95b60,
  0xbf2c25bd71e09, 0xbfc73b0468d30, 0xc06286141b33d, 0xc0fe06ff301f5,
  0xc199bdd85529d, 0xc235aab23e61e, 0xc2d1cd9fa652c, 0xc36e26b34e066,
  0xc40ab5fffd07b, 0xc4a77b9881650, 0xc544778fafb23, 0xc5e1a9f8630ad,
  0xc67f12e57d14c, 0xc71cb269e601f, 0xc7ba88988c933, 0xc8589584661a1,
  0xc8f6d9406e7b6, 0xc99553dfa8314, 0xca3405751c4db, 0xcad2ee13da7cc,
  0xcb720dcef906a, 0xcc1164b994d23, 0xccb0f2e6d1675, 0xcd50b869d8f10,
  0xcdf0b555dc3fa, 0xce90e9be12cba, 0xcf3155b5bab74, 0xcfd1f95018d17,
  0xd072d4a07897c, 0xd113e7ba2c38d, 0xd1b532b08c969, 0xd256b596f948c,
  0xd2f87080d89f2, 0xd39a638197a3c, 0xd43c8eacaa1d7, 0xd4def2158a91f]

private def thresholds9Part7 : Array Nat := #[
  0xd5818dcfba488, 0xd62461eec14bf, 0xd6c76e862e6d4, 0xd76ab3a99745b,
  0xd80e316c98398, 0xd8b1e7e2d479d, 0xd955d71ff6076, 0xd9f9ff37adb4a,
  0xda9e603db3286, 0xdb42fa45c4dfe, 0xdbe7cd63a8315, 0xdc8cd9ab294e5,
  0xdd321f301b461, 0xddd79e065807e, 0xde7d5641c0658, 0xdf2347f63c159,
  0xdfc97337b9b5f, 0xe06fd81a2ece1, 0xe11676b197d17, 0xe1bd4f11f8221,
  0xe264614f5a129, 0xe30bad7dcee91, 0xe3b333b16ee12, 0xe45af3fe592e8,
  0xe502ee78b3ff7, 0xe5ab2334ac7ee, 0xe653924676d76, 0xe6fc3bc24e351,
  0xe7a51fbc74c84, 0xe84e3e4933c7e, 0xe8f7977cdb740, 0xe9a12b6bc3182,
  0xea4afa2a490da, 0xeaf503ccd2be6, 0xeb9f4867cca6f, 0xec49c80faa594,
  0xecf482d8e67f1, 0xed9f78d802dc2, 0xee4aaa2188511, 0xeef616ca06dd7,
  0xefa1bee615a28, 0xf04da28a52e5a, 0xf0f9c1cb6412a, 0xf1a61cbdf5be7,
  0xf252b376bba98, 0xf2ff860a70c22, 0xf3ac948dd7274, 0xf459df15b82ad,
  0xf50765b6e4541, 0xf5b5288633626, 0xf6632798844f9, 0xf7116302bd527,
  0xf7bfdad9cbe14, 0xf86e8f32a4b46, 0xf91d802243c89, 0xf9ccadbdac61d,
  0xfa7c1819e90d9, 0xfb2bbf4c0ba55, 0xfbdba3692d514, 0xfc8bc4866e8ae,
  0xfd3c22b8f71f2, 0xfdecbe15f6315, 0xfe9d96b2a23da, 0xff4eaca4391b6]

/-- The thresholds of scale 9, in the order of their positions. -/
def thresholds9 : Array Nat :=
  thresholds9Part0 ++ thresholds9Part1 ++ thresholds9Part2 ++ thresholds9Part3 ++
  thresholds9Part4 ++ thresholds9Part5 ++ thresholds9Part6 ++ thresholds9Part7

end ExponentialHistogram.Threshold
